import DmaStream.Proofs.Precondition
import DmaStream.Session.Setup
import DmaStream.Session.Step

namespace DmaStream

/-- The calls a start makes once it has its lock. -/
def Call.prepares : Call → Bool
  | .setLoopback _ => true
  | .ringLayout => true
  | .mapRing _ _ => true
  | .unmap _ _ => true
  | .enableChannel _ enable => enable
  | _ => false

/-- The calls that give something back. -/
def Call.givesBack : Call → Bool
  | .enableChannel _ enable => !enable
  | .releaseLock _ => true
  | .cancelAll => true
  | .unmap _ _ => true
  | .close => true
  | _ => false

/-- The calls that give something back and stop nothing. -/
def Call.yields : Call → Bool
  | .releaseLock _ => true
  | .cancelAll => true
  | .unmap _ _ => true
  | _ => false

/-- The calls a synchronization step makes. -/
def Call.exchanges : Call → Bool
  | .enableChannel _ enable => enable
  | .pushSwCount _ _ => true
  | .read _ => true
  | .write _ => true
  | .waitReady _ _ => true
  | .submit _ _ => true
  | .waitAny _ _ => true
  | _ => false

/-- The calls a synchronization step makes in one mode. -/
def Call.serves (mode : Mode) : Call → Bool
  | .enableChannel _ enable => enable && mode == .zeroCopy
  | .pushSwCount _ _ => mode == .zeroCopy
  | .read _ => mode == .copy
  | .write _ => mode == .copy
  | .waitReady _ _ => true
  | .submit _ _ => mode == .copy
  | .waitAny _ _ => mode == .copy
  | _ => false

theorem Call.exchanges_of_serves {mode : Mode} {c : Call} (h : c.serves mode = true) :
    c.exchanges = true := by
  cases c with
  | enableChannel d enable => exact (Bool.and_eq_true_iff.mp h).1
  | _ => first | rfl | cases h

/-- The calls that have to do with rings. -/
def Call.fits : Call → Bool
  | .ringLayout => true
  | .mapRing _ _ => true
  | .unmap _ _ => true
  | _ => false

theorem Call.prepares_of_fits {c : Call} (h : c.fits = true) : c.prepares = true := by
  cases c <;> first | rfl | cases h

/-- The direction a call is about, if it is about one. -/
def Call.about : Call → Option Direction
  | .enableChannel d _ => some d
  | .mapRing d _ => some d
  | .pushSwCount d _ => some d
  | .read _ => some .inbound
  | .write _ => some .outbound
  | .submit d _ => some d
  | .unmap d _ => some d
  | _ => none

namespace Attempt

variable {σ τ α β : Type} {I : τ → World σ → Prop}

/-- Whatever becomes of the work, `I` still holds if it did before. -/
def Keeps (I : τ → World σ → Prop) (x : Attempt σ τ α) : Prop :=
  ∀ t w, I t w → x.wp (fun _ => I) (fun _ => I) True t w

theorem keeps_iff_upholds {x : Attempt σ τ α} : Keeps I x ↔ Upholds I (fun _ _ => True) x :=
  Iff.rfl

namespace Keeps

theorem pure (a : α) : Keeps I (Pure.pure a : Attempt σ τ α) :=
  fun _ _ h => h

theorem throw (e : Error) : Keeps I (MonadExcept.throw e : Attempt σ τ α) :=
  fun _ _ h => h

theorem bind {x : Attempt σ τ α} {next : α → Attempt σ τ β} (hx : Keeps I x)
    (hnext : ∀ a, Keeps I (next a)) : Keeps I (x >>= next) :=
  keeps_iff_upholds.mpr (.bind (keeps_iff_upholds.mp hx) hnext)

theorem get_bind {next : τ → Attempt σ τ β} (hnext : ∀ t, Keeps I (next t)) :
    Keeps I (get >>= next) :=
  keeps_iff_upholds.mpr (.get_bind hnext)

theorem ofReply (r : Except Error α) : Keeps I (ofReply r : Attempt σ τ α) :=
  keeps_iff_upholds.mpr (.ofReply r)

theorem fault (f : Fault) : Keeps I (lift (Act.fault f) : Attempt σ τ α) :=
  fun _ _ _ => (wp_lift _).mpr ((Act.wp_fault f).mpr trivial)

theorem ofFaulty (x : Except Fault α) : Keeps I (Attempt.ofFaulty x : Attempt σ τ α) := by
  cases x with
  | ok a => exact pure a
  | error f => exact fault f

theorem forM {ι : Type} {items : List ι} {one : ι → Attempt σ τ Unit}
    (hone : ∀ i, Keeps I (one i)) : Keeps I (items.forM one) :=
  keeps_iff_upholds.mpr (.forM hone)

theorem foldlM {ι : Type} {items : List ι} {one : α → ι → Attempt σ τ α}
    (hone : ∀ a i, Keeps I (one a i)) (a : α) : Keeps I (items.foldlM one a) :=
  keeps_iff_upholds.mpr (.foldlM hone a)

end Keeps

end Attempt

namespace Exchange
open Attempt

variable {σ α : Type} {dev : Device σ} {mode : Mode} {own : Direction → Prop}
  {I : Link → World σ → Prop} {d : Direction}

/-- Something that no call of a step in one mode about some directions, no channel of theirs and no
entry of the log makes a difference to. -/
structure Scope (dev : Device σ) (mode : Mode) (own : Direction → Prop)
    (I : Link → World σ → Prop) : Prop where
  call : ∀ c l w, c.serves mode = true → (∀ d, c.about = some d → own d) → I l w →
    (dev.answer c).wp (fun _ => I l) True w
  channel : ∀ l w d c, own d → I l w → I { l with streams := l.streams.setChannel d c } w
  note : ∀ l w log, I l w → I l { w with log }

/-- Something that no call of a step, no channel and no entry of the log makes a difference to. -/
structure Frame (dev : Device σ) (I : Link → World σ → Prop) : Prop where
  call : ∀ c l w, c.exchanges = true → I l w → (dev.answer c).wp (fun _ => I l) True w
  channel : ∀ l w d c, I l w → I { l with streams := l.streams.setChannel d c } w
  note : ∀ l w log, I l w → I l { w with log }

/-- Neither do transfers in flight. -/
structure FlightFrame (dev : Device σ) (I : Link → World σ → Prop) : Prop extends Frame dev I where
  flight : ∀ l w flight, I l w → I { l with flight } w

/-- A direction of the scope, or one without a stream. -/
def Covers (own : Direction → Prop) (I : Link → World σ → Prop) (d : Direction) : Prop :=
  own d ∨ ∀ l w, I l w → l.streams.get d = none

theorem Frame.scope (h : Frame dev I) : Scope dev mode (fun _ => True) I where
  call c l w hc _ hI := h.call c l w (Call.exchanges_of_serves hc) hI
  channel l w d c _ hI := h.channel l w d c hI
  note := h.note

theorem keeps_synced (d : Direction) (r : Except Error α) :
    Keeps I (synced d r : Exchange σ α) := by
  cases r with
  | ok a => exact .pure a
  | error e => exact .throw _

theorem keeps_stream (d : Direction) : Keeps I (stream d : Exchange σ Stream) := by
  refine .get_bind fun l => ?_
  cases l.streams.get d with
  | none => exact .throw _
  | some s => exact .pure s

theorem Covers.keeps_stream {next : Stream → Exchange σ α} (hd : Covers own I d)
    (hnext : own d → ∀ s, Keeps I (next s)) : Keeps I (stream d >>= next) := by
  rcases hd with hown | hvacant
  · exact .bind (Exchange.keeps_stream d) (hnext hown)
  · exact fun l w hI => wp_vacant (hvacant l w hI) hI

theorem upholds_pollingStep_of {G : Fault → World σ → Prop} (timeout : Nat)
    (hwait : ∀ dirs, Upholds I G (Attempt.ask dev (.waitReady dirs timeout) : Exchange σ _))
    (hserve : ∀ d, Upholds I G (serveOne dev mode d)) :
    Upholds I G (pollingStep dev mode timeout) :=
  .get_bind fun _ => .bind (hwait _) fun reply => .bind (.ofReply reply) fun ready =>
    .bind (.forM hserve) fun _ => .pure ready

theorem upholds_overlappedCounters_of {G : Fault → World σ → Prop} (timeout : Nat)
    (hwait : ∀ dirs, Upholds I G (Attempt.ask dev (.waitReady dirs timeout) : Exchange σ _))
    (hsync : ∀ d, Upholds I G (syncCounters dev d)) :
    Upholds I G (overlappedCounters dev timeout) := by
  have hserve : ∀ dirs : Directions, Upholds I G (serve dirs (syncCounters dev)) :=
    fun dirs => .forM hsync
  refine .get_bind fun l => .bind (hserve _) fun _ => .get_bind fun l' => ?_
  split
  · exact .pure _
  · refine .bind (hwait _) fun reply => ?_
    split
    · exact .bind (hserve _) fun _ => .pure _
    · exact .pure _
    · exact .throw _

theorem keeps_harvestFinished (hharvest : Keeps I (harvest dev 0)) (done : Directions)
    (limit : Nat) : Keeps I (harvestFinished dev done limit) := by
  induction limit generalizing done with
  | zero => exact .fault _
  | succ limit ih =>
      refine .bind hharvest fun news => ?_
      cases news with
      | none => exact .pure _
      | some d => exact ih _

theorem keeps_overlappedBatches_of (timeout : Nat) (hsubmit : ∀ d, Keeps I (submitBatch dev d))
    (hharvest : ∀ timeout, Keeps I (harvest dev timeout)) :
    Keeps I (overlappedBatches dev timeout) := by
  have hround : ∀ (done : Directions) (d : Direction), Keeps I (do
      return if ← submitBatch dev d then done.insert d else done) :=
    fun done d => .bind (hsubmit d) fun _ => .pure _
  have hlimit : Keeps I (harvestLimit dev) :=
    .bind (fun l w hI => (wp_lift _).mpr hI) fun w => .pure _
  refine .get_bind fun l => .bind (.foldlM hround ∅) fun started =>
    .bind hlimit fun limit => .bind (keeps_harvestFinished (hharvest 0) started limit)
      fun done => ?_
  split
  · refine .bind (hharvest timeout) fun news => ?_
    cases news <;> exact .pure _
  · exact .pure _

namespace Scope

theorem keeps_ask (h : Scope dev mode own I) {c : Call} (hc : c.serves mode = true)
    (hown : ∀ d, c.about = some d → own d) : Keeps I (Attempt.ask dev c : Exchange σ (Reply c)) :=
  fun l w hI => (wp_ask dev c).mpr (h.call c l w hc hown hI)

theorem keeps_ask_about (h : Scope dev mode own I) {c : Call} (hc : c.serves mode = true)
    (habout : c.about = some d) (hown : own d) :
    Keeps I (Attempt.ask dev c : Exchange σ (Reply c)) :=
  h.keeps_ask hc fun f hf => by
    cases habout.symm.trans hf
    exact hown

theorem keeps_wait (h : Scope dev mode own I) (timeout : Nat) (dirs : Directions) :
    Keeps I (Attempt.ask dev (.waitReady dirs timeout) : Exchange σ _) :=
  h.keeps_ask rfl fun _ hd => nomatch hd

theorem keeps_note (h : Scope dev mode own I) (e : LogEvent) :
    Keeps I (Attempt.note e : Exchange σ Unit) :=
  fun l w hI => h.note l w _ hI

theorem keeps_setChannel (h : Scope dev mode own I) (hown : own d) (c : Channel) :
    Keeps I (setChannel d c : Exchange σ Unit) :=
  fun l w hI => h.channel l w d c hown hI

theorem keeps_noteUnclaimed (h : Scope dev mode own I) (c : Channel) :
    Keeps I (noteUnclaimed c : Exchange σ Unit) := by
  unfold noteUnclaimed
  split
  · exact h.keeps_note _
  · exact .pure ()

theorem keeps_retire (h : Scope dev mode own I) (hd : Covers own I d) :
    Keeps I (retire d : Exchange σ Unit) :=
  hd.keeps_stream fun hown s =>
    .bind (h.keeps_noteUnclaimed s.channel) fun _ => h.keeps_setChannel hown _

theorem keeps_retire_bind {next : Exchange σ α} (h : Scope dev mode own I) (hd : Covers own I d)
    (hnext : own d → Keeps I next) : Keeps I (retire d >>= fun _ => next) := by
  rcases hd with hown | hvacant
  · exact .bind (h.keeps_retire (.inl hown)) fun _ => hnext hown
  · exact fun l w hI => wp_retire_vacant (hvacant l w hI) hI

theorem keeps_observe (h : Scope dev mode own I) (hd : Covers own I d) (hwCount : Nat) :
    Keeps I (observe d hwCount : Exchange σ Unit) := by
  refine hd.keeps_stream fun hown s => ?_
  cases s.channel.refuse hwCount with
  | some v => exact .throw _
  | none =>
      cases s.channel.overrun hwCount with
      | some waiting => exact .bind (h.keeps_note _) fun _ => h.keeps_setChannel hown _
      | none => exact h.keeps_setChannel hown _

theorem keeps_syncCounters (h : Scope dev .zeroCopy own I) (hd : Covers own I d) :
    Keeps I (syncCounters dev d) :=
  hd.keeps_stream fun hown _ =>
    .bind (h.keeps_ask_about rfl rfl hown) fun reply =>
      .bind (keeps_synced d reply) fun _ =>
        .bind (h.keeps_ask_about rfl rfl hown) fun reply =>
          .bind (keeps_synced d reply) fun counts =>
            .bind (h.keeps_observe hd counts.hwCount) fun _ =>
              .bind (keeps_stream d) fun _ => h.keeps_note _

theorem keeps_finishBatch (h : Scope dev mode own I) (hd : Covers own I d)
    (requested moved : Nat) : Keeps I (finishBatch d requested moved : Exchange σ Unit) := by
  refine hd.keeps_stream fun hown s => ?_
  dsimp only
  split
  · exact fun _ _ hI => hI
  · split
    · exact fun _ _ _ => trivial
    · split
      · exact fun _ _ hI => hI
      · exact .bind (h.keeps_noteUnclaimed s.channel) fun _ =>
          .bind (h.keeps_setChannel hown _) fun _ => h.keeps_note _

theorem keeps_moveBatch (h : Scope dev .copy own I) (hd : Covers own I d) :
    Keeps I (moveBatch dev d) := by
  refine h.keeps_retire_bind hd fun hown => .bind (keeps_stream d) fun s =>
    .bind (.ofFaulty _) fun buf => ?_
  cases d with
  | inbound =>
      exact .bind (h.keeps_ask_about rfl rfl hown) fun reply =>
        .bind (keeps_synced _ reply) fun moved => h.keeps_finishBatch hd _ moved
  | outbound =>
      exact .bind (h.keeps_ask_about rfl rfl hown) fun reply =>
        .bind (keeps_synced _ reply) fun moved => h.keeps_finishBatch hd _ moved

theorem keeps_serveOne (h : Scope dev mode own I) (hd : Covers own I d) :
    Keeps I (serveOne dev mode d) := by
  cases mode with
  | zeroCopy => exact h.keeps_syncCounters hd
  | copy => exact h.keeps_moveBatch hd

theorem keeps_pollingStep (h : Scope dev mode own I) (hcover : ∀ d, Covers own I d)
    (timeout : Nat) : Keeps I (pollingStep dev mode timeout) :=
  upholds_pollingStep_of timeout (h.keeps_wait timeout) fun d => h.keeps_serveOne (hcover d)

theorem keeps_overlappedCounters (h : Scope dev .zeroCopy own I) (hcover : ∀ d, Covers own I d)
    (timeout : Nat) : Keeps I (overlappedCounters dev timeout) :=
  upholds_overlappedCounters_of timeout (h.keeps_wait timeout) fun d =>
    h.keeps_syncCounters (hcover d)

variable (hflight : ∀ l w flight, I l w → I { l with flight } w)
include hflight

theorem keeps_submitBatch (h : Scope dev .copy own I) (hd : Covers own I d) :
    Keeps I (submitBatch dev d) := by
  refine h.keeps_retire_bind hd fun hown => .bind (keeps_stream d) fun s =>
    .bind (h.keeps_ask_about rfl rfl hown) fun reply =>
      .bind (keeps_synced d reply) fun outcome => ?_
  cases outcome with
  | completed moved => exact .bind (h.keeps_finishBatch hd _ moved) fun _ => .pure _
  | pending => exact fun l w hI => hflight l w _ hI

theorem keeps_harvest (h : Scope dev .copy own I) (hcover : ∀ d, Covers own I d) (timeout : Nat) :
    Keeps I (harvest dev timeout) := by
  refine .get_bind fun l => ?_
  dsimp only
  split
  · exact .pure _
  · refine .bind (h.keeps_ask rfl fun _ hd => nomatch hd) fun reply =>
      .bind (keeps_synced _ reply) fun news => ?_
    cases news with
    | none => exact .pure _
    | some landing =>
        obtain ⟨d, moved⟩ := landing
        exact .bind (fun l w hI => hflight l w _ hI) fun _ =>
          .bind (h.keeps_finishBatch (hcover d) _ moved) fun _ => .pure _

theorem keeps_overlappedBatches (h : Scope dev .copy own I) (hcover : ∀ d, Covers own I d)
    (timeout : Nat) : Keeps I (overlappedBatches dev timeout) :=
  keeps_overlappedBatches_of timeout (fun d => h.keeps_submitBatch hflight (hcover d))
    fun timeout => h.keeps_harvest hflight hcover timeout

theorem keeps_step (h : Scope dev mode own I) (hcover : ∀ d, Covers own I d) (t : Transport) :
    Keeps I (t.step dev mode) := by
  unfold Transport.step
  cases t.method with
  | polling => exact h.keeps_pollingStep hcover _
  | overlapped =>
      cases mode with
      | zeroCopy => exact h.keeps_overlappedCounters hcover _
      | copy => exact h.keeps_overlappedBatches hflight hcover _

end Scope

end Exchange

/-- A step keeps what all its calls, all channels and the transfers in flight do. -/
theorem Transport.keeps_step {σ : Type} {dev : Device σ} {I : Link → World σ → Prop}
    (h : Exchange.FlightFrame dev I) (t : Transport) (mode : Mode) :
    Attempt.Keeps I (t.step dev mode) :=
  h.toFrame.scope.keeps_step h.flight (fun _ => .inl trivial) t

namespace Setup
open Attempt hiding ask

variable {σ : Type} {dev : Device σ} {config : Config} {I : Holdings → World σ → Prop}

theorem wp_guarded {α : Type} {act : Act σ α} {held : Holdings} {w : World σ}
    {Q : α → Holdings → World σ → Prop} {E : Error → Holdings → World σ → Prop} {F : Prop} :
    (guarded dev act).wp Q E F held w ↔ act.wp (fun a => Q a held) F w := by
  unfold guarded
  rw [wp_bind, wp_get, wp_lift, Act.wp_onFault]

/-- Something that no ring of a start makes a difference to. -/
structure Preparing (dev : Device σ) (I : Holdings → World σ → Prop) : Prop where
  call : ∀ c h w, c.fits = true → I h w → (dev.answer c).wp (fun _ => I h) True w
  memory : ∀ h w memory, I h w → I h { w with memory }
  note : ∀ h w log, I h w → I h { w with log }
  streams : ∀ h w streams, I h w → I { h with streams } w

/-- Something that makes its way through a start: it also knows which engines have been turned
on. -/
structure Course (dev : Device σ) (config : Config) (I : Holdings → World σ → Prop) : Prop
    extends Preparing dev I where
  switch : ∀ d h w, config.directions.has d = true → I h w →
    Act.wp (dev.answer (.enableChannel d true)) (fun reply w' => match reply with
      | .ok _ => I { h with running := h.running.insert d } w'
      | .error _ => I h w') True w

/-- Something that depends on the lock of a start alone, and that no call makes a difference to
which is made after the lock is there. -/
structure Frame (dev : Device σ) (I : Holdings → World σ → Prop) : Prop where
  call : ∀ c h w, c.prepares = true → I h w → (dev.answer c).wp (fun _ => I h) True w
  memory : ∀ h w memory, I h w → I h { w with memory }
  note : ∀ h w log, I h w → I h { w with log }
  streams : ∀ h w streams, I h w → I { h with streams } w
  running : ∀ h w running, I h w → I { h with running } w

namespace Preparing

theorem keeps_ask (h : Preparing dev I) {c : Call} (hc : c.fits = true) :
    Keeps I (Setup.ask dev c) := by
  intro held w hI
  unfold Setup.ask
  rw [wp_guarded]
  exact h.call c held w hc hI

theorem keeps_sharedLayout (h : Preparing dev I) (mode : Mode) :
    Keeps I (sharedLayout dev mode) := by
  cases mode with
  | zeroCopy =>
      exact .bind (h.keeps_ask rfl) fun reply => .bind (.ofReply reply) fun _ => .pure _
  | copy => exact .pure _

theorem keeps_mapRing (h : Preparing dev I) (d : Direction) (g : Geometry) :
    Keeps I (mapRing dev d g) := by
  unfold mapRing
  cases checkGeometry g.slotSize g.slotCount with
  | error flaw => exact .throw _
  | ok u =>
      refine .bind (h.keeps_ask rfl) fun reply => .bind (.ofReply reply) fun mapping =>
        .bind (.ofFaulty _) fun outcome => ?_
      cases outcome with
      | ok ring => exact .pure _
      | error e => exact .bind (h.keeps_ask rfl) fun _ => .throw _

theorem keeps_makeStream (h : Preparing dev I) (layout : Option Layout) (d : Direction) :
    Keeps I (makeStream dev config layout d) := by
  have hring : Keeps I (makeRing dev config layout d) := by
    unfold makeRing
    cases layout with
    | some l => exact h.keeps_mapRing d _
    | none =>
        refine .bind (fun held w hI => ?_) fun reply => .ofReply reply
        rw [wp_lift]
        unfold Ring.allocate
        dsimp only
        split
        · exact hI
        · rw [Act.wp_bind]
          exact Act.wp_tryAlloc (fun _ => h.memory held w _ hI) fun _ => h.memory held w _ hI
  refine .bind hring fun ring => ?_
  cases config.capacityBound d ring.slotCount with
  | none => exact .fault _
  | some bound => exact fun held w hI => h.streams held w _ hI

theorem wp_enable {d : Direction} {held : Holdings} {w : World σ}
    {E : Error → Holdings → World σ → Prop} (h : Preparing dev I)
    (hswitch : Act.wp (dev.answer (.enableChannel d true)) (fun reply w' => match reply with
      | .ok _ => I { held with running := held.running.insert d } w'
      | .error e => E e held w') True w) :
    (enable dev d).wp (fun _ held' w' => I held' w' ∧ held'.running = held.running.insert d) E True
      held w := by
  unfold enable Setup.ask
  rw [wp_bind, wp_guarded]
  refine Act.wp_mono hswitch fun reply w₁ h₁ => ?_
  cases reply with
  | error e => exact h₁
  | ok counts =>
      rw [wp_bind, wp_ofReply_ok, wp_bind, wp_modify, wp_bind, wp_get]
      cases held.streams.get d with
      | none => exact ⟨h₁, rfl⟩
      | some stream => exact ⟨h.note _ _ _ (h.streams _ _ _ h₁), rfl⟩

theorem wp_run {I₀ J : Holdings → World σ → Prop} {held : Holdings} {w : World σ}
    {E : Error → Holdings → World σ → Prop} (h : Preparing dev I)
    (hE : ∀ e held w, I held w → E e held w)
    (hlock : (takeLock dev config.directions).wp (fun _ => I₀) E True held w)
    (hroute : ∀ held w, I₀ held w → Act.wp (dev.answer (.setLoopback config.loopback))
      (fun reply w' => match reply with
        | .ok _ => I held w'
        | .error e => E e held w') True w)
    (hswitches : ∀ held w, I held w →
      Attempt.wp (config.directions.toList.forM (enable dev)) (fun _ => J) E True held w) :
    (run dev config).wp (fun _ => J) E True held w := by
  unfold run
  rw [wp_bind]
  refine wp_mono hlock (fun _ held₁ w₁ hI₀ => ?_) fun _ _ _ h => h
  rw [wp_bind]
  unfold Setup.ask
  rw [wp_guarded]
  refine Act.wp_mono (hroute held₁ w₁ hI₀) fun reply w₂ h₂ => ?_
  rw [wp_bind]
  cases reply with
  | error e => exact h₂
  | ok u =>
      rw [wp_ofReply_ok, wp_bind]
      refine wp_mono (h.keeps_sharedLayout _ held₁ w₂ h₂) (fun layout held₃ w₃ h₃ => ?_) hE
      rw [wp_bind]
      exact wp_mono (Keeps.forM (h.keeps_makeStream layout) held₃ w₃ h₃)
        (fun _ held₄ w₄ h₄ => hswitches held₄ w₄ h₄) hE

end Preparing

namespace Course

theorem wp_enable {d : Direction} {held : Holdings} {w : World σ} (h : Course dev config I)
    (hd : config.directions.has d = true) (hI : I held w) :
    (enable dev d).wp (fun _ held' w' => I held' w' ∧ held'.running.has d = true ∧
      ∀ e, held.running.has e = true → held'.running.has e = true) (fun _ => I) True held w := by
  refine wp_mono (h.toPreparing.wp_enable (E := fun _ => I) (h.switch d held w hd hI))
    (fun _ held' w' h' => ?_) fun _ _ _ h => h
  rw [h'.2]
  exact ⟨h'.1, by simp, fun e he => by simp [he]⟩

/-- What comes of the lock and of the route holds to the end of the start, and then all engines have
been turned on. -/
theorem wp_run {I₀ : Holdings → World σ → Prop} {held : Holdings} {w : World σ}
    {E : Error → Holdings → World σ → Prop} (h : Course dev config I)
    (hE : ∀ e held w, I held w → E e held w)
    (hlock : (takeLock dev config.directions).wp (fun _ => I₀) E True held w)
    (hroute : ∀ held w, I₀ held w → Act.wp (dev.answer (.setLoopback config.loopback))
      (fun reply w' => match reply with
        | .ok _ => I held w'
        | .error e => E e held w') True w) :
    (run dev config).wp (fun _ held w' =>
      I held w' ∧ ∀ d, config.directions.has d = true → held.running.has d = true) E True held
      w := by
  refine h.toPreparing.wp_run hE hlock hroute fun held w hI => ?_
  refine wp_mono (wp_forM_each I (fun d held _ => held.running.has d = true) hI
    fun held w hI d hd => h.wp_enable (Directions.mem_toList.mp hd) hI) (fun _ held w' h' => ?_)
    hE
  exact ⟨h'.1, fun d hd => h'.2 d (Directions.mem_toList.mpr hd)⟩

end Course

namespace Frame

theorem course (h : Frame dev I) : Course dev config I where
  call c held w hc hI := h.call c held w (Call.prepares_of_fits hc) hI
  switch d held w _ hI := by
    refine Act.wp_mono (h.call _ held w rfl hI) fun reply w' hI' => ?_
    cases reply with
    | ok counts => exact h.running _ _ _ hI'
    | error e => exact hI'
  memory := h.memory
  note := h.note
  streams := h.streams

theorem wp_run {held : Holdings} {w : World σ} {E : Error → Holdings → World σ → Prop}
    (h : Frame dev I) (hE : ∀ e held w, I held w → E e held w)
    (hlock : (takeLock dev config.directions).wp (fun _ => I) E True held w) :
    (run dev config).wp (fun _ => I) E True held w := by
  refine wp_mono (h.course.wp_run hE hlock fun held w hI => ?_) (fun _ _ _ h => h.1)
    fun _ _ _ h => h
  refine Act.wp_mono (h.call _ held w rfl hI) fun reply w' hI' => ?_
  cases reply with
  | ok u => exact hI'
  | error e => exact hE e held w' hI'

end Frame

end Setup

namespace Device

variable {σ : Type} {dev : Device σ} {G : Fault → World σ → Prop} {I J : World σ → Prop}
  {w : World σ}

/-- Something that holds while transfers, locks and rings are given back, where a stop means `G`. No
entry of the log and no freed memory makes a difference to it. -/
structure Yields (dev : Device σ) (G : Fault → World σ → Prop) (I : World σ → Prop) : Prop where
  call : ∀ c w, c.yields = true → I w → (dev.answer c).Ends (fun _ => I) G w
  free : ∀ w r, I w → I { w with memory := w.memory.free r }
  note : ∀ w log, I w → I { w with log }

namespace Yields

theorem ends_discard (h : dev.Yields G I) (hI : I w) (streams : Streams) :
    (streams.discard dev).Ends (fun _ => I) G w := by
  refine Act.ends_forM I hI fun w hI d _ => ?_
  cases streams.get d with
  | none => exact hI
  | some stream =>
      dsimp only
      unfold Ring.discard
      cases stream.ring.storage with
      | owned => exact h.free w _ hI
      | mapped => exact h.call _ w rfl hI

theorem ends_dropLock (h : dev.Yields G I) (hI : I w) (lock : Directions) :
    (Lock.drop dev lock).Ends (fun _ => I) G w := by
  unfold Lock.drop
  split
  · exact hI
  · rw [Act.ends_bind]
    refine (h.call _ w rfl hI).mono (fun reply w' hI' => ?_) fun _ _ h => h
    cases reply <;> exact h.note _ _ hI'

theorem ends_release (h : dev.Yields G I) (hI : I w) (lock : Directions) :
    (Lock.release dev lock).Ends (fun _ => I) G w := by
  unfold Lock.release
  split
  · exact hI
  · rw [Act.ends_bind]
    refine (h.call _ w rfl hI).mono (fun reply w' hI' => ?_) fun _ _ h => h
    cases reply with
    | ok u => exact h.note _ _ hI'
    | error e => exact hI'

theorem ends_abandon (h : dev.Yields G I) (hI : I w) (flight : Flight) :
    (Transport.abandon dev flight).Ends (fun _ => I) G w := by
  unfold Transport.abandon
  split
  · exact hI
  · rw [Act.ends_bind]
    exact h.call .cancelAll _ rfl (h.note _ _ hI)

end Yields

/-- Something that says which of the engines of `dirs` have been stopped by then, while all but the
handle is given back, and what it comes to when the handle is closed. -/
structure Leaves (dev : Device σ) (G : Fault → World σ → Prop) (dirs : List Direction)
    (I : List Direction → World σ → Prop) (J : World σ → Prop) : Prop where
  yields : ∀ done, dev.Yields G (I done)
  stop : ∀ done d w, d ∈ dirs → I done w →
    Act.Ends (dev.answer (.enableChannel d false)) (fun _ => I (done ++ [d])) G w
  close : ∀ w, I dirs w → Act.Ends (dev.answer .close) (fun _ => J) G w
  noteClosed : ∀ w log, J w → J { w with log }

namespace Leaves

variable {dirs : List Direction} {I : List Direction → World σ → Prop}

theorem ends_handBack {α : Type} (h : dev.Leaves G dirs I J) (hI : I dirs w) (streams : Streams)
    (e : LogEvent) (out : α) :
    Act.Ends (do
      streams.discard dev
      dev.close
      Act.note e
      return out) (fun _ => J) G w := by
  rw [Act.ends_bind]
  refine ((h.yields dirs).ends_discard hI streams).mono (fun _ w₁ hI₁ => ?_) fun _ _ h => h
  rw [Act.ends_bind]
  exact (h.close w₁ hI₁).mono (fun _ w₂ hJ => h.noteClosed _ _ hJ) fun _ _ h => h

theorem ends_stopEngines {streams : Streams} (h : dev.Leaves G streams.active.toList I J)
    (hI : I [] w) (stats : Stats) :
    (Live.stopEngines dev streams stats).Ends (fun _ => I streams.active.toList) G w := by
  refine Act.ends_foldlM_done I hI fun done acc w hI d hd => ?_
  obtain ⟨stats, failure⟩ := acc
  unfold Live.stopEngine
  rw [Act.ends_bind]
  refine (h.stop done d w hd hI).mono (fun reply w' hI' => ?_) fun _ _ h => h
  cases reply <;> exact (h.yields _).note _ _ hI'

theorem ends_tearDown {live : Live} (h : dev.Leaves G live.link.streams.active.toList I J)
    (hI : I [] w) (stats : Stats) : (live.tearDown dev stats).Ends (fun _ => J) G w := by
  unfold Live.tearDown
  simp only [Stats.record_disable, Streams.discard_disable]
  rw [Act.ends_bind]
  refine ((h.yields []).ends_abandon hI live.link.flight).mono (fun _ w₁ hI₁ => ?_) fun _ _ h => h
  rw [Act.ends_bind]
  refine (h.ends_stopEngines hI₁ _).mono (fun acc w₂ hI₂ => ?_) fun _ _ h => h
  obtain ⟨stats, failure⟩ := acc
  dsimp only
  rw [Act.ends_bind]
  refine ((h.yields _).ends_release hI₂ live.lock).mono (fun reply w₃ hI₃ => ?_) fun _ _ h => h
  cases reply with
  | ok u => exact h.ends_handBack hI₃ _ _ _
  | error e => exact h.ends_handBack ((h.yields _).note _ _ hI₃) _ _ _

theorem ends_giveBack {held : Holdings} (h : dev.Leaves G held.running.toList I J) (hI : I [] w) :
    (held.giveBack dev).Ends (fun _ => J) G w := by
  unfold Holdings.giveBack
  rw [Act.ends_bind]
  have hstop : ∀ done w, I done w → ∀ d ∈ held.running.toList,
      (Holdings.stopEngine dev d).Ends (fun _ => I (done ++ [d])) G w := by
    intro done w hI d hd
    unfold Holdings.stopEngine
    rw [Act.ends_bind]
    refine (h.stop done d w hd hI).mono (fun reply w' hI' => ?_) fun _ _ h => h
    cases reply with
    | ok counts => exact hI'
    | error e => exact (h.yields _).note _ _ hI'
  refine (Act.ends_forM_done I hI hstop).mono (fun _ w₁ hI₁ => ?_) fun _ _ h => h
  rw [Act.ends_bind]
  refine ((h.yields _).ends_dropLock hI₁ held.lock).mono (fun _ w₂ hI₂ => ?_) fun _ _ h => h
  rw [Act.ends_bind]
  exact ((h.yields _).ends_discard hI₂ held.streams).mono (fun _ w₃ hI₃ => h.close w₃ hI₃)
    fun _ _ h => h

end Leaves

/-- Something that holds while all but the handle is given back, whichever engines have been stopped
by then, and what it comes to when the handle is closed. -/
structure Parting (dev : Device σ) (G : Fault → World σ → Prop) (I J : World σ → Prop) : Prop
    extends Yields dev G I where
  stop : ∀ d w, I w → Act.Ends (dev.answer (.enableChannel d false)) (fun _ => I) G w
  close : ∀ w, I w → Act.Ends (dev.answer .close) (fun _ => J) G w
  noteClosed : ∀ w log, J w → J { w with log }

theorem Parting.leaves (h : dev.Parting G I J) (dirs : List Direction) :
    dev.Leaves G dirs (fun _ => I) J where
  yields _ := h.toYields
  stop _ d w _ hI := h.stop d w hI
  close := h.close
  noteClosed := h.noteClosed

end Device

namespace Setup
open Attempt hiding ask

theorem takeLock_yields {σ : Type} {dev : Device σ} {J : World σ → Prop} {wanted : Directions}
    {w : World σ} (hyields : dev.Yields (fun _ _ => True) J)
    (hrequest : ∀ w, J w → Act.wp (dev.answer (.requestLock wanted)) (fun _ => J) True w)
    (hJ : J w) :
    (takeLock dev wanted).wp (fun _ held w' => held.running = ∅ ∧ J w')
      (fun _ held w' => held = .none ∧ J w') True .none w := by
  unfold takeLock Lock.acquire
  rw [wp_bind, wp_guarded, Act.wp_bind]
  refine Act.wp_mono (hrequest w hJ) fun reply w₁ h₁ => ?_
  cases reply with
  | error e => exact ⟨rfl, h₁⟩
  | ok granted =>
      dsimp only
      split
      · rw [Act.wp_bind, Act.wp_note]
        exact ⟨rfl, hyields.note _ _ h₁⟩
      · rw [Act.wp_bind, Act.wp_note, Act.wp_bind]
        exact Act.wp_mono (hyields.ends_dropLock (hyields.note _ _ h₁) _) fun _ _ h₂ => ⟨rfl, h₂⟩

end Setup

namespace Session

variable {σ : Type} {dev : Device σ} {s : Session} {live : Live} {F : Prop}
  {G : Fault → World σ → Prop} {w : World σ} {I : Link → World σ → Prop} {J : World σ → Prop}

theorem ends_step {Q : StepReport × Session → World σ → Prop} (hs : s.live = some live)
    (h : (live.transport.step dev live.mode).Ends
      (fun synced link w' => ∀ stats log,
        Q (⟨.ok (available ⟨some { live with link }, stats⟩),
          some ⟨some synced, link.flight.pending⟩⟩,
          ⟨some { live with link }, stats⟩) { w' with log })
      (fun e link w' => (s.recover dev { live with link } e).Ends
        (fun s' => Q (⟨.error e, some ⟨none, link.flight.pending⟩⟩, s')) G w') G live.link w) :
    (s.step dev).Ends Q G w := by
  simp only [step, hs]
  rw [Act.ends_bind]
  refine Act.Ends.mono h (fun out w₁ h₁ => ?_) fun _ _ h => h
  obtain ⟨outcome, link⟩ := out
  cases outcome with
  | ok synced =>
      dsimp only
      rw [Act.ends_bind]
      unfold conclude
      dsimp only
      split
      · exact h₁ _ _
      · exact h₁ _ w₁.log
  | error e =>
      dsimp only
      rw [Act.ends_bind]
      exact h₁

theorem wp_step {Q : StepReport × Session → World σ → Prop} (hs : s.live = some live)
    (h : (live.transport.step dev live.mode).wp
      (fun synced link w' => ∀ stats log,
        Q (⟨.ok (available ⟨some { live with link }, stats⟩),
          some ⟨some synced, link.flight.pending⟩⟩,
          ⟨some { live with link }, stats⟩) { w' with log })
      (fun e link w' => (s.recover dev { live with link } e).wp
        (fun s' => Q (⟨.error e, some ⟨none, link.flight.pending⟩⟩, s')) F w') F live.link w) :
    (s.step dev).wp Q F w :=
  Act.ends_iff_wp.mp (ends_step hs (Attempt.ends_iff_wp.mpr h))

theorem wp_step_closed {Q : StepReport × Session → World σ → Prop} (hs : s.live = none)
    (h : Q (⟨.error .sessionClosed, none⟩, s) w) : (s.step dev).wp Q F w := by
  unfold step
  rw [hs]
  exact h

theorem ends_recover {e : Error} {Q : Session → World σ → Prop}
    (hfatal : e.isFatal = true → (live.tearDown dev s.stats.countStep).Ends
      (fun out w' => ∀ log, Q ⟨none, out.1⟩ { w' with log }) G
      { w with log := w.log.push (.tearingDown e) })
    (hmild : e.isFatal = false → Q ⟨some live, s.stats.countStep⟩ w) :
    (s.recover dev live e).Ends Q G w := by
  simp only [recover]
  split
  · next h =>
      rw [Act.ends_bind]
      refine .of_wp ((Act.wp_note _).mpr ?_)
      rw [Act.ends_bind]
      refine (hfatal h).mono (fun out w' h' => ?_) fun _ _ h => h
      obtain ⟨stats, failure⟩ := out
      cases failure with
      | none => exact h' w'.log
      | some second => exact h' _
  · next h => exact hmild (Bool.eq_false_iff.mpr h)

theorem wp_recover_tearDown {e : Error} {Q : Session → World σ → Prop}
    (hfatal : e.isFatal = true → (live.tearDown dev s.stats.countStep).wp
      (fun out w' => ∀ log, Q ⟨none, out.1⟩ { w' with log }) F
      { w with log := w.log.push (.tearingDown e) })
    (hmild : e.isFatal = false → Q ⟨some live, s.stats.countStep⟩ w) :
    (s.recover dev live e).wp Q F w :=
  Act.ends_iff_wp.mp (ends_recover hfatal hmild)

/-- A session leaves the same behind whether it is told to clean up or dropped. -/
theorem ends_leave (hnote : ∀ w log, J w → J { w with log }) (hclosed : s.live = none → J w)
    (hopen : ∀ live, s.live = some live →
      (live.tearDown dev s.stats).Ends (fun _ => J) G w) :
    (s.cleanup dev).Ends (fun _ => J) G w ∧ (s.drop dev).Ends (fun _ => J) G w := by
  unfold cleanup drop
  cases hs : s.live with
  | none => exact ⟨hclosed hs, hclosed hs⟩
  | some live =>
      dsimp only
      rw [Act.ends_bind, Act.ends_bind]
      constructor
      · refine (hopen live hs).mono (fun out w' h' => ?_) fun _ _ h => h
        obtain ⟨_, failure⟩ := out
        cases failure <;> exact h'
      · refine (hopen live hs).mono (fun out w' h' => ?_) fun _ _ h => h
        obtain ⟨_, failure⟩ := out
        cases failure with
        | none => exact h'
        | some e => exact hnote _ _ h'

theorem wp_leave {J : World σ → Prop} (hnote : ∀ w log, J w → J { w with log })
    (hclosed : s.live = none → J w)
    (hopen : ∀ live, s.live = some live → (live.tearDown dev s.stats).wp (fun _ => J) F w) :
    (s.cleanup dev).wp (fun _ => J) F w ∧ (s.drop dev).wp (fun _ => J) F w :=
  ends_leave hnote hclosed hopen

/-- A step leaves a session open with what its transport keeps, or closed with what its teardown
comes to. -/
theorem wp_step_of_keeps (hs : s.live = some live)
    (hkeeps : Attempt.Keeps I (live.transport.step dev live.mode))
    (hnote : ∀ l w log, I l w → I l { w with log })
    (hleave : ∀ link stats w, I link w →
      (Live.tearDown dev { live with link } stats).wp (fun _ w' => ∀ log, J { w' with log }) True w)
    (h : I live.link w) :
    (s.step dev).wp (fun out w' =>
      (∃ link, out.2.live = some { live with link } ∧ I link w') ∨
        out.2.live = none ∧ J w') True w := by
  refine wp_step hs (Attempt.wp_mono (hkeeps live.link w h) (fun synced link w' h' stats log => ?_)
    fun e link w' h' => ?_)
  · exact .inl ⟨link, rfl, hnote _ _ _ h'⟩
  · refine wp_recover_tearDown (fun _ => ?_) fun _ => .inl ⟨link, rfl, h'⟩
    exact Act.wp_mono (hleave link _ _ (hnote _ _ _ h')) fun _ w'' h'' log => .inr ⟨rfl, h'' log⟩

end Session

end DmaStream

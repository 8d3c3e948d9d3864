import DmaStream.Proofs.InboundBytes
import DmaStream.Proofs.Replies
import DmaStream.Proofs.Sharing

/-!
A session that streams inbound, and its engine. Main statement: while the session is open its engine
runs on, whatever is done with the other sessions, and the session never counts on more than the
engine has filled since, or than was copied out of its ring, but for bytes that mishaps claim.
-/
namespace DmaStream

/-- The calls through a handle `k` that leave the inbound engine to a handle `id` and running, and
take no slots of a shared ring but the `n` it has filled. -/
def Call.Spares (k id : Nat) (mode : Mode) (n : Nat) : Call → Prop
  | .enableChannel .inbound enable => enable = true
  | .pushSwCount .inbound count => mode = .zeroCopy ∧ count ≤ n
  | .releaseLock _ => k ≠ id
  | .close => k ≠ id
  | _ => True

theorem Call.spares_of_serves {mode mode' : Mode} {c : Call} {k id n : Nat}
    (hc : c.serves mode' = true) (hown : ∀ d, c.about = some d → d = .outbound) :
    c.Spares k id mode n := by
  cases c with
  | enableChannel d enable =>
      rw [hown d rfl]
      trivial
  | pushSwCount d count =>
      rw [hown d rfl]
      trivial
  | _ => trivial

namespace Entry

/-- What is entered finds the inbound engine running, with no slot taken before it was filled. -/
def Finds : Entry → Prop
  | .called _ _ v _ =>
    let e := v.machine.engines.inbound
    e.enabled = true ∧ e.swCount ≤ e.hwCount
  | _ => True

def feint : Entry → Nat
  | .injected mishap => mishap.feint
  | _ => 0

/-- Bytes that the mishaps of some entries are going to claim. -/
def feints (es : List Entry) : Nat :=
  (es.map feint).sum

theorem feints_snoc (es : List Entry) (e : Entry) : feints (es ++ [e]) = feints es + e.feint := by
  unfold feints
  rw [List.map_append, List.sum_append]
  rfl

end Entry

/-- How far a session counts on its inbound engine to be. On a shared ring that many slots have come
in. Otherwise that many bytes were moved out of the ring, or mishaps have claimed them, of which so
many could come to be claimed. -/
def Mode.Met : Mode → (n allowance : Nat) → Card → Prop
  | .zeroCopy, n, _, c => n ≤ c.engines.inbound.hwCount
  | .copy, n, allowance, c => n + c.feints ≤ c.copied .inbound + allowance

/-- Bytes that a board reports count for a session that has rings of its own. -/
def Mode.credit : Mode → Nat → Nat
  | .zeroCopy, _ => 0
  | .copy, bytes => bytes

@[simp] theorem Mode.credit_zero (mode : Mode) : mode.credit 0 = 0 := by
  cases mode <;> rfl

theorem Mode.Met.later {mode : Mode} {n allowance bytes : Nat} {c c' : Card}
    (h : mode.Met n allowance c) (hhw : c.engines.inbound.hwCount ≤ c'.engines.inbound.hwCount)
    (hbytes : c.Supplies bytes c') : mode.Met (n + mode.credit bytes) allowance c' := by
  cases mode with
  | zeroCopy => exact Nat.le_trans h hhw
  | copy =>
      have hmet : n + c.feints ≤ c.copied .inbound + allowance := h
      have hsupplied := hbytes.supplied
      show n + bytes + c'.feints ≤ c'.copied .inbound + allowance
      omega

theorem Holders.owner_after {h : Holders} {c : Call} {mode : Mode} {k id n : Nat}
    (hc : c.Spares k id mode n) (howner : h.owners.get .inbound = some id) :
    (h.after k c).owners.get .inbound = some id := by
  cases c with
  | requestLock wanted =>
      show (h.grant k wanted).owners.get .inbound = some id
      rw [owner_grant]
      split
      · next htakes =>
          unfold takes at htakes
          rw [howner, Bool.and_eq_true] at htakes
          have hsame : id = k := by simpa using htakes.2
          rw [hsame]
      · exact howner
  | releaseLock held =>
      have hne : id ≠ k := Ne.symm hc
      show (h.free k held).owners.get .inbound = some id
      rw [owner_free, howner]
      simp [hne]
  | close =>
      have hne : id ≠ k := Ne.symm hc
      show (h.close k).owners.get .inbound = some id
      rw [owner_close, howner]
      simp [hne]
  | _ => exact howner

namespace Card

variable {c c' : Card} {d : Direction} {mode : Mode} {k id n n' allowance bytes more : Nat}
  {call : Call} {w : World Card}

/-- A handle holds the inbound engine. It runs, it is as far as the handle counts on it to be, and
no slot was taken before it was filled. -/
structure Receives (id : Nat) (mode : Mode) (n allowance : Nat) (c : Card) : Prop where
  owner : c.engines.inbound.owner = some id
  enabled : c.engines.inbound.enabled = true
  taken_le : c.engines.inbound.swCount ≤ c.engines.inbound.hwCount
  met : mode.Met n allowance c

namespace Receives

theorem mono (h : c.Receives id mode n allowance) (hle : n' ≤ n) :
    c.Receives id mode n' allowance := by
  refine ⟨h.owner, h.enabled, h.taken_le, ?_⟩
  have hmet := h.met
  cases mode with
  | zeroCopy => exact Nat.le_trans hle hmet
  | copy => exact Nat.le_trans (Nat.add_le_add_right hle _) hmet

theorem onward (h : c.Receives id mode n allowance) (h' : c.Onward c')
    (hbytes : c.Supplies bytes c') (howner : c'.engines.inbound.owner = some id) :
    c'.Receives id mode (n + mode.credit bytes) allowance where
  owner := howner
  enabled := (h'.enabled .inbound).trans h.enabled
  taken_le := h'.taken h.taken_le
  met := h.met.later (h'.hwCount_le .inbound) hbytes

theorem still (h : c.Receives id mode n allowance) (h' : c.Onward c') (hbytes : c.Supplies 0 c')
    (howner : c'.engines.inbound.owner = some id) : c'.Receives id mode n allowance :=
  (h.onward h' hbytes howner).mono (Nat.le_add_right _ _)

theorem endures (id : Nat) (mode : Mode) (n allowance : Nat) :
    Endures (Receives id mode n allowance) where
  mishap c mishap h :=
    h.still (.of_engines fun _ => ⟨rfl, rfl⟩) ((endures_supplies c).mishap c mishap (.refl c))
      h.owner
  advance c m h := h.still (.advance c m) ((endures_supplies c).advance c m (.refl c)) h.owner
  read c len h := h.still (.read c len) ((endures_supplies c).read c len (.refl c)) h.owner
  write c len h := h.still (.write c len) ((endures_supplies c).write c len (.refl c)) h.owner
  inFlight _ _ _ _ h :=
    h.still (.of_engines fun _ => ⟨rfl, rfl⟩) (.of_same rfl rfl rfl) h.owner

theorem outbound (h : c.Receives id mode n allowance) (hin : c'.engines.inbound = c.engines.inbound)
    (hbytes : c.Supplies 0 c') : c'.Receives id mode n allowance where
  owner := hin ▸ h.owner
  enabled := hin ▸ h.enabled
  taken_le := hin ▸ h.taken_le
  met := by
    have hmet := h.met.later (hin ▸ Nat.le_refl _) hbytes
    rwa [Mode.credit_zero] at hmet

theorem switch (h : c.Receives id mode n allowance) {enable : Bool}
    (hc : (Call.enableChannel d enable).Spares k id mode n) :
    (switchEngine d enable c).Receives id mode n allowance := by
  cases d with
  | inbound =>
      have henable : enable = true := hc
      have hon : (c.engines.get .inbound).enabled = true := h.enabled
      rw [henable, switchEngine_of_running hon]
      exact h
  | outbound => exact h.outbound rfl (.of_same rfl rfl rfl)

theorem push (h : c.Receives id mode n allowance) {count : Nat}
    (hc : (Call.pushSwCount d count).Spares k id mode n) :
    (c.setEngine d { c.engines.get d with swCount := count }).Receives id mode n allowance := by
  cases d with
  | inbound =>
      obtain ⟨rfl, hcount⟩ := hc
      exact ⟨h.owner, h.enabled, Nat.le_trans hcount h.met, h.met⟩
  | outbound => exact h.outbound rfl (.of_same rfl rfl rfl)

theorem close (h : c.Receives id mode n allowance) (hne : k ≠ id) :
    (closeHandle k c).Receives id mode n allowance := by
  refine h.outbound ?_ (.of_slows (slows_closeHandle k c))
  show (if c.engines.inbound.owner == some k then _ else c.engines.inbound) = c.engines.inbound
  rw [if_neg]
  rw [h.owner]
  simpa using Ne.symm hne

theorem inject (h : c.Receives id mode n allowance) (mishap : Mishap) :
    { c with mishaps := c.mishaps ++ [mishap] }.Receives id mode n (allowance + mishap.feint) := by
  refine ⟨h.owner, h.enabled, h.taken_le, ?_⟩
  have hmet := h.met
  cases mode with
  | zeroCopy => exact hmet
  | copy =>
      have hmet : n + c.feints ≤ c.copied .inbound + allowance := hmet
      have hmore : ((c.mishaps ++ [mishap]).map Mishap.feint).sum = c.feints + mishap.feint := by
        rw [List.map_append, List.sum_append]
        rfl
      show n + ((c.mishaps ++ [mishap]).map Mishap.feint).sum ≤
        c.copied .inbound + (allowance + mishap.feint)
      omega

theorem wp_gain (h : w.machine.Receives id mode n allowance) (hturns : call.turns = false)
    (hc : call.Spares k id mode n) :
    Act.wp ((device k).answer call)
      (fun reply v => v.machine.Receives id mode (n + mode.credit (call.gain reply)) allowance)
      True w := by
  refine Act.wp_mono (Act.wp_and (wp_answer_holders k call w) (Act.wp_and
    (wp_answer_onward k hturns w) (wp_answer_supplies k hturns w))) fun reply v hv => ?_
  refine h.onward hv.2.1 hv.2.2 ?_
  show (v.machine.engines.get .inbound).owner = some id
  rw [← owner_holders v.machine .inbound, hv.1]
  exact Holders.owner_after hc ((owner_holders _ _).trans h.owner)

theorem wp_answer (h : w.machine.Receives id mode n allowance) (hc : call.Spares k id mode n) :
    Act.wp ((device k).answer call) (fun _ v => v.machine.Receives id mode n allowance) True w := by
  have hendures := endures id mode n allowance
  cases call with
  | enableChannel d enable =>
      exact hendures.wp_enableChannel (fun _ => h.switch hc) (fun _ _ _ hv _ => hv)
        fun _ _ => hendures.mishap _ _ h
  | pushSwCount d count =>
      exact hendures.wp_pushSwCount (h.push hc) (fun _ hv => hv)
        fun _ => hendures.mishap _ _ h
  | close => exact h.close hc
  | _ => exact Act.wp_mono (h.wp_gain rfl hc) fun _ _ hv => hv.mono (Nat.le_add_right _ _)

theorem wp_persist (h : w.machine.Receives id mode n allowance) (hc : call.Spares k id mode n) :
    ((device k).persist call more).wp (fun _ v => v.machine.Receives id mode n allowance) True w :=
  Device.wp_persist (h.wp_answer hc) fun _ _ _ hv => hv.wp_answer hc

theorem wp_persist_gain (h : w.machine.Receives id mode n allowance) (hturns : call.turns = false)
    (hc : call.Spares k id mode n) :
    ((device k).persist call more).wp
      (fun reply v => v.machine.Receives id mode (n + mode.credit (call.gain reply)) allowance)
      True w := by
  refine Device.wp_persist (h.wp_gain hturns hc) fun reply v hvain hv => ?_
  rw [Call.gain_of_inVain hvain, Mode.credit_zero] at hv
  exact hv.wp_gain hturns hc

theorem wp_report (h : w.machine.Receives id mode n allowance) :
    Act.wp ((device k).answer (.enableChannel .inbound true)) (fun reply v =>
      v.machine.Receives id mode n allowance ∧ ∀ counts, reply = .ok counts →
        counts.hwCount ≤ v.machine.engines.inbound.hwCount) True w := by
  have hendures := endures id mode n allowance
  refine hendures.wp_enableChannel (fun _ => h.switch (k := k) rfl) (fun _ counts v hv hle => ?_)
    fun _ e => ⟨hendures.mishap _ _ h, nofun⟩
  refine ⟨hv, ?_⟩
  rintro _ ⟨⟩
  exact hle

end Receives

end Card

namespace Watched

variable {mode : Mode} {k id n n' : Nat} {start : World Watched} {c : Call} {w : World Watched}

/-- A handle has received inbound slots ever since a moment, and the engine is as far as the handle
counts on it to be. -/
def Receiving (id : Nat) (start : World Watched) (mode : Mode) (n : Nat) (w : World Watched) :
    Prop :=
  ∃ es, w.machine.journal = start.machine.journal ++ es ∧ (∀ e ∈ es, e.Finds) ∧
    w.machine.card.Receives id mode n (start.machine.card.feints + Entry.feints es)

namespace Receiving

theorem mono (h : Receiving id start mode n w) (hle : n' ≤ n) : Receiving id start mode n' w := by
  obtain ⟨es, hes, hfinds, hcard⟩ := h
  exact ⟨es, hes, hfinds, hcard.mono hle⟩

theorem owner (h : Receiving id start mode n w) :
    w.machine.card.engines.inbound.owner = some id := by
  obtain ⟨es, hes, hfinds, hcard⟩ := h
  exact hcard.owner

theorem entered {es : List Entry} {e : Entry} {v : World Card}
    (hes : w.machine.journal = start.machine.journal ++ es) (hfinds : ∀ e ∈ es, e.Finds)
    (he : e.Finds) (hv : v.machine.Receives id mode n
      (start.machine.card.feints + (Entry.feints es + e.feint))) :
    Receiving id start mode n (w.entered e v) := by
  refine ⟨es ++ [e], ?_, fun e' he' => ?_, Entry.feints_snoc es e ▸ hv⟩
  · show w.machine.journal ++ [e] = _
    rw [hes, List.append_assoc]
  · rcases List.mem_append.mp he' with he' | he'
    · exact hfinds e' he'
    · rw [List.mem_singleton.mp he']
      exact he

theorem claimed (h : Receiving id start mode n w) {d : Direction} {index : Nat}
    {memory : Memory} :
    Receiving id start mode n (w.entered (.claimed k d index) { w.unwatched with memory }) := by
  obtain ⟨es, hes, hfinds, hcard⟩ := h
  exact entered hes hfinds trivial hcard

theorem inject (h : Receiving id start mode n w) (mishap : Mishap) :
    (Tenant.inject mishap).wp (fun _ => Receiving id start mode n) True w := by
  obtain ⟨es, hes, hfinds, hcard⟩ := h
  refine Tenant.wp_inject.mpr (entered hes hfinds trivial ?_)
  rw [← Nat.add_assoc]
  exact hcard.inject mishap

theorem opened (h : Receiving id start mode n w) :
    Receiving id start mode n (Tenant.opened w) := by
  obtain ⟨es, hes, hfinds, hcard⟩ := h
  exact ⟨es, hes, hfinds, hcard.outbound rfl (.of_same rfl rfl rfl)⟩

theorem wp_call (h : Receiving id start mode n w) (hc : c.Spares k id mode n) :
    Act.wp ((device k).answer c) (fun _ => Receiving id start mode n) True w := by
  obtain ⟨es, hes, hfinds, hcard⟩ := h
  exact wp_device.mpr (Act.wp_mono (Card.Receives.wp_persist (w := w.unwatched) hcard hc)
    fun _ v hv => entered hes hfinds ⟨hcard.enabled, hcard.taken_le⟩ hv)

theorem wp_gain (h : Receiving id start mode n w) (hturns : c.turns = false)
    (hc : c.Spares k id mode n) :
    Act.wp ((device k).answer c)
      (fun reply => Receiving id start mode (n + mode.credit (c.gain reply))) True w := by
  obtain ⟨es, hes, hfinds, hcard⟩ := h
  refine wp_device.mpr (Act.wp_mono
    (Card.Receives.wp_persist_gain (w := w.unwatched) hcard hturns hc) fun _ v hv => ?_)
  exact entered hes hfinds ⟨hcard.enabled, hcard.taken_le⟩ hv

theorem wp_report (h : Receiving id start mode n w) :
    Act.wp ((device k).answer (.enableChannel .inbound true)) (fun reply w' =>
      Receiving id start mode n w' ∧ ∀ counts, reply = .ok counts →
        counts.hwCount ≤ w'.machine.card.engines.inbound.hwCount) True w := by
  obtain ⟨es, hes, hfinds, hcard⟩ := h
  exact (wp_prompt fun _ => rfl).mpr (Act.wp_mono
    (Card.Receives.wp_report (w := w.unwatched) hcard) fun _ v hv =>
      ⟨entered hes hfinds ⟨hcard.enabled, hcard.taken_le⟩ hv.1, hv.2⟩)

/-- A session on shared rings may count on all that has come in. -/
theorem reach (h : Receiving id start .zeroCopy n w)
    (hle : n' ≤ w.machine.card.engines.inbound.hwCount) : Receiving id start .zeroCopy n' w := by
  obtain ⟨es, hes, hfinds, hcard⟩ := h
  exact ⟨es, hes, hfinds, hcard.owner, hcard.enabled, hcard.taken_le, hle⟩

end Receiving

/-! ### What other sessions do -/

theorem yields_receiving (start : World Watched) (mode : Mode) (n : Nat) (hne : k ≠ id) :
    (device k).Yields (fun _ _ => True) (Receiving id start mode n) where
  call c w hc h := by
    refine h.wp_call ?_
    cases c <;> first | exact hne | trivial
  free _ _ h := h
  note _ _ h := h

theorem leaves_receiving (start : World Watched) (mode : Mode) (n : Nat) (hne : k ≠ id)
    {dirs : List Direction} (hdirs : .inbound ∉ dirs) :
    (device k).Leaves (fun _ _ => True) dirs (fun _ => Receiving id start mode n)
      (Receiving id start mode n) where
  yields _ := yields_receiving start mode n hne
  stop _ d w hd h := by
    refine h.wp_call ?_
    cases d with
    | inbound => exact absurd hd hdirs
    | outbound => trivial
  close _ h := h.wp_call hne
  noteClosed _ _ h := h

theorem wp_tearDown_receiving (hne : k ≠ id) {live : Live}
    (hvacant : live.link.streams.inbound = none) (stats : Stats)
    (h : Receiving id start mode n w) :
    (live.tearDown (device k) stats).wp (fun _ => Receiving id start mode n) True w := by
  refine (leaves_receiving start mode n hne ?_).ends_tearDown h stats
  rw [Directions.mem_toList, Directions.mem_iff_has, Streams.has_active]
  show ¬live.link.streams.inbound.isSome = true
  rw [hvacant]
  decide

theorem scope_receiving (start : World Watched) (mode : Mode) (n : Nat) (mode' : Mode) :
    Exchange.Scope (device k) mode' (· = .outbound) fun l w =>
      l.streams.inbound = none ∧ Receiving id start mode n w where
  call c l w hc hown h :=
    Act.wp_mono (h.2.wp_call (Call.spares_of_serves hc hown)) fun _ _ h' => ⟨h.1, h'⟩
  channel l w d c hown h := by
    refine ⟨?_, h.2⟩
    rw [hown]
    exact h.1
  note _ _ _ h := h

theorem covers_receiving (d : Direction) :
    Exchange.Covers (· = .outbound) (fun l (w : World Watched) =>
      l.streams.inbound = none ∧ Receiving id start mode n w) d := by
  cases d with
  | inbound => exact .inr fun _ _ h => h.1
  | outbound => exact .inl rfl

theorem course_receiving (start : World Watched) (mode : Mode) (n : Nat) (config : Config) :
    Setup.Course (device k) config fun held w => config.directions.has .inbound = false ∧
      held.running.has .inbound = false ∧ Receiving id start mode n w where
  call c held w hc h := by
    refine Act.wp_mono (h.2.2.wp_call ?_) fun _ _ h' => ⟨h.1, h.2.1, h'⟩
    cases c <;> trivial
  switch d held w hd h := by
    cases d with
    | inbound =>
        rw [h.1] at hd
        cases hd
    | outbound =>
        refine Act.wp_mono (h.2.2.wp_call trivial) fun reply w' h' => ?_
        cases reply with
        | error e => exact ⟨h.1, h.2.1, h'⟩
        | ok counts =>
            refine ⟨h.1, ?_, h'⟩
            rw [Directions.has_insert, h.2.1]
            rfl
  memory _ _ _ h := h
  note _ _ _ h := h
  streams _ _ _ h := h

theorem wp_start_receiving (hne : k ≠ id) (config : Config) (t : Transport)
    (h : Receiving id start mode n w) :
    (Session.start (device k) config t).wp (fun _ => Receiving id start mode n) True w := by
  have hnone : (∅ : Directions).has .inbound = false := Directions.has_empty _
  have hheld : w.machine.card.holders.takes k config.directions .inbound = false := by
    have howner : w.machine.card.holders.owners.get .inbound = some id :=
      (Card.owner_holders _ _).trans h.owner
    unfold Holders.takes
    rw [howner]
    simp [Ne.symm hne]
  have hlock : (Setup.takeLock (device k) config.directions).wp
      (fun _ held v => config.directions.has .inbound = false ∧
        held.running.has .inbound = false ∧ Receiving id start mode n v)
      (fun _ held v => held.running.has .inbound = false ∧ Receiving id start mode n v) True .none
      w := by
    refine Attempt.wp_mono (Attempt.wp_and (takeLock_admitted k config.directions w)
      (Setup.takeLock_yields (yields_receiving start mode n hne)
        (fun v hv => hv.wp_call trivial) h)) (fun _ held v hv => ?_) fun _ held v hv => ?_
    · refine ⟨?_, hv.2.1 ▸ hnone, hv.2.2⟩
      rw [Bool.eq_false_iff]
      intro hwanted
      have htaken := hv.1.taken .inbound hwanted
      rw [hheld] at htaken
      cases htaken
    · rw [hv.2.1]
      exact ⟨hnone, hv.2.2⟩
  have hrun := (course_receiving start mode n config).wp_run (fun _ _ _ h => h.2) hlock
    fun held v hv => by
      refine Act.wp_mono (hv.2.2.wp_call trivial) fun reply v' hv' => ?_
      cases reply with
      | ok u => exact ⟨hv.1, hv.2.1, hv'⟩
      | error e => exact ⟨hv.2.1, hv'⟩
  refine Session.wp_start (fun _ _ => h.wp_call hne) (fun _ => hrun)
    (fun held v _ _ hv => hv.1.2.2) fun e held v hv => ?_
  refine (leaves_receiving start mode n hne ?_).ends_giveBack hv.2
  rw [Directions.mem_toList, Directions.mem_iff_has, hv.1]
  decide

theorem wp_step_receiving (hne : k ≠ id) {s : Session} (hvacant : s.stream .inbound = none)
    (h : Receiving id start mode n w) :
    (s.step (device k)).wp (fun _ => Receiving id start mode n) True w := by
  cases hs : s.live with
  | none => exact Session.wp_step_closed hs h
  | some live =>
      rw [Session.stream_of_open hs] at hvacant
      refine Act.wp_mono (Session.wp_step_of_keeps (J := Receiving id start mode n) hs
        ((scope_receiving start mode n live.mode).keeps_step (fun _ _ _ h => h) covers_receiving _)
        (fun _ _ _ h => h)
        (fun link stats v hv => Act.wp_mono (wp_tearDown_receiving hne hv.1 stats hv.2)
          fun _ _ h' _ => h') ⟨hvacant, h⟩) fun out w' h' => ?_
      rcases h' with ⟨_, _, h'⟩ | ⟨_, h'⟩
      · exact h'.2
      · exact h'

theorem wp_leave_receiving (hne : k ≠ id) {s : Session} (hvacant : s.stream .inbound = none)
    (h : Receiving id start mode n w) :
    (s.cleanup (device k)).wp (fun _ => Receiving id start mode n) True w ∧
      (s.drop (device k)).wp (fun _ => Receiving id start mode n) True w := by
  refine Session.wp_leave (fun _ _ h => h) (fun _ => h) fun live hs => ?_
  rw [Session.stream_of_open hs] at hvacant
  exact wp_tearDown_receiving hne hvacant _ h

/-! ### What the session does itself -/

/-- What a session that streams inbound knows of its channel. On a ring of its own it has handed out
no more slots than it was told of. -/
structure Counted (mode : Mode) (c : Channel) : Prop where
  direction : c.direction = .inbound
  sound : mode = .zeroCopy → c.Sound .zeroCopy
  accounting : mode = .copy → c.accounting = .batch c.remaining
  claimed_le : mode = .copy → c.claimed + c.remaining ≤ c.hwCount

namespace Counted

variable {c : Channel}

theorem retire (h : Counted .copy c) : Counted .copy c.retire where
  direction := (Channel.direction_retire c).trans h.direction
  sound hm := nomatch hm
  accounting _ := by
    unfold Channel.retire Channel.remaining
    rw [h.accounting rfl]
  claimed_le _ := by
    have hleft : c.retire.remaining = 0 := by
      unfold Channel.retire Channel.remaining
      rw [h.accounting rfl]
    rw [hleft, Channel.claimed_retire, Channel.hwCount_retire]
    exact Nat.le_of_add_right_le (h.claimed_le rfl)

theorem hwCount_completeBatch (h : Counted .copy c) (slots : Nat) :
    (c.completeBatch slots).hwCount = c.hwCount + slots := by
  unfold Channel.completeBatch
  dsimp only
  rw [h.retire.direction, Channel.hwCount_retire]

theorem completeBatch (h : Counted .copy c) (slots : Nat) :
    Counted .copy (c.completeBatch slots) where
  direction := h.retire.direction
  sound hm := nomatch hm
  accounting _ := rfl
  claimed_le _ := by
    rw [h.hwCount_completeBatch]
    show c.retire.claimed + slots ≤ c.hwCount + slots
    rw [Channel.claimed_retire]
    exact Nat.add_le_add_right (Nat.le_of_add_right_le (h.claimed_le rfl)) slots

theorem advance (h : Counted mode c) (havail : 0 < c.available) : Counted mode c.advance where
  direction := h.direction
  sound hm := (h.sound hm).advance havail
  accounting hm := by
    unfold Channel.advance Channel.remaining
    rw [h.accounting hm]
  claimed_le hm := by
    have hle := h.claimed_le hm
    have hleft : c.advance.remaining = c.remaining - 1 := by
      unfold Channel.advance Channel.remaining
      rw [h.accounting hm]
    have hsome : 0 < c.remaining := by
      unfold Channel.available at havail
      rw [h.accounting hm] at havail
      split at havail
      · exact havail
      · exact absurd havail (Nat.lt_irrefl 0)
    show c.claimed + 1 + c.advance.remaining ≤ c.hwCount
    omega

end Counted

/-- How far a session counts on its inbound engine to be: in slots of a shared ring, or in bytes
that were copied into its own. -/
def reached : Mode → Stream → Nat
  | .zeroCopy, s => s.channel.hwCount
  | .copy, s => s.channel.hwCount * s.ring.slotSize

/-- A session that streams inbound and counts on nothing its engine has not done; so many bytes were
reported to it that it has not accounted for yet. -/
def Hearing (id : Nat) (start : World Watched) (mode : Mode) (extra : Nat) (l : Link)
    (w : World Watched) : Prop :=
  ∃ s, l.streams.inbound = some s ∧ Counted mode s.channel ∧
    Receiving id start mode (reached mode s + extra) w

theorem Hearing.mono {extra extra' : Nat} {l : Link} (h : Hearing id start mode extra l w)
    (hle : extra' ≤ extra) : Hearing id start mode extra' l w := by
  obtain ⟨s, hs, hcounted, h⟩ := h
  exact ⟨s, hs, hcounted, h.mono (Nat.add_le_add_left hle _)⟩

theorem Hearing.wp_gain {l : Link} (h : Hearing id start .copy 0 l w) (hturns : c.turns = false)
    (hc : ∀ n, c.Spares id id .copy n) :
    Act.wp ((device id).answer c) (fun reply => Hearing id start .copy (c.gain reply) l) True
      w := by
  obtain ⟨s, hs, hcounted, h⟩ := h
  exact Act.wp_mono (h.wp_gain hturns (hc _)) fun _ _ h' => ⟨s, hs, hcounted, h'⟩

theorem scope_hearing (id : Nat) (start : World Watched) (mode : Mode) (extra : Nat) :
    Exchange.Scope (device id) mode (· = .outbound) (Hearing id start mode extra) where
  call c l w hc hown h := by
    obtain ⟨s, hs, hcounted, h⟩ := h
    exact Act.wp_mono (h.wp_call (Call.spares_of_serves hc hown))
      fun _ _ h' => ⟨s, hs, hcounted, h'⟩
  channel l w d c hown h := by
    obtain ⟨s, hs, hcounted, h⟩ := h
    refine ⟨s, ?_, hcounted, h⟩
    rw [hown]
    exact hs
  note _ _ _ h := h

theorem keeps_syncCounters_hearing (id : Nat) (start : World Watched) (d : Direction) :
    Attempt.Keeps (Hearing id start .zeroCopy 0) (Exchange.syncCounters (device id) d) := by
  cases d with
  | outbound => exact (scope_hearing id start .zeroCopy 0).keeps_syncCounters (.inl rfl)
  | inbound =>
      rintro l w ⟨s, hs, hcounted, h⟩
      have hchannel := hcounted.sound rfl
      have hkept : ∀ w', Receiving id start .zeroCopy s.channel.hwCount w' →
          Hearing id start .zeroCopy 0 l w' := fun w' h' => ⟨s, hs, hcounted, h'⟩
      unfold Exchange.syncCounters
      have hget : l.streams.get .inbound = some s := hs
      rw [Attempt.wp_bind, Exchange.wp_stream, hget]
      dsimp only
      rw [Attempt.wp_bind, Attempt.wp_ask]
      have hreleased : s.channel.swCount ≤ s.channel.hwCount :=
        Nat.le_trans (Nat.le_add_right _ _) (hchannel.inbound_le hcounted.direction)
      refine Act.wp_mono (h.wp_call ⟨rfl, hreleased⟩) fun reply w₁ h₁ => ?_
      rw [Attempt.wp_bind]
      cases reply with
      | error e => exact hkept w₁ h₁
      | ok u =>
          rw [Exchange.wp_synced_ok, Attempt.wp_bind, Attempt.wp_ask]
          refine Act.wp_mono h₁.wp_report fun reply w₂ h₂ => ?_
          rw [Attempt.wp_bind]
          cases reply with
          | error e => exact hkept w₂ h₂.1
          | ok counts =>
              rw [Exchange.wp_synced_ok, Attempt.wp_bind]
              refine Exchange.wp_observe hget (fun _ _ => hkept w₂ h₂.1) fun log hgood => ?_
              have hnext := Streams.get_setChannel_self hget
                (s.channel.acceptHwCount counts.hwCount)
              rw [Attempt.wp_bind, Exchange.wp_stream, hnext]
              exact ⟨_, hnext, ⟨hcounted.direction, fun _ => (hchannel.acceptHwCount hgood).1,
                nofun, nofun⟩, h₂.1.reach (h₂.2 counts rfl)⟩

/-- Of the bytes that are reported the session only counts on whole slots. -/
theorem finishBatch_hearing {d : Direction} {requested moved : Nat} {l : Link}
    (h : Hearing id start .copy (if d = .inbound then moved else 0) l w) :
    (Exchange.finishBatch d requested moved).wp (fun _ => Hearing id start .copy 0)
      (fun _ => Hearing id start .copy 0) True l w := by
  cases d with
  | outbound =>
      exact (scope_hearing id start .copy 0).keeps_finishBatch (.inl rfl) _ _ l w h
  | inbound =>
      have hkept : Hearing id start .copy 0 l w := h.mono (Nat.zero_le _)
      obtain ⟨s, hs, hcounted, hreceiving⟩ := h
      have hget : l.streams.get .inbound = some s := hs
      rcases Nat.eq_zero_or_pos s.ring.slotSize with hzero | hpos
      · unfold Exchange.finishBatch
        rw [Attempt.wp_bind, Exchange.wp_stream, hget]
        dsimp only
        rw [hzero, if_pos rfl]
        split
        · exact hkept
        · exact (Attempt.wp_bind _ _).mpr trivial
      · refine Exchange.wp_finishBatch hget hpos (fun _ _ => hkept) fun log _ _ =>
          ⟨_, Streams.get_setChannel_self hget _, hcounted.completeBatch _, hreceiving.mono ?_⟩
        show (s.channel.completeBatch _).hwCount * s.ring.slotSize ≤
          s.channel.hwCount * s.ring.slotSize + moved
        rw [hcounted.hwCount_completeBatch, Nat.add_mul]
        exact Nat.add_le_add_left (Nat.div_mul_le_self _ _) _

theorem keeps_retire_hearing (id : Nat) (start : World Watched) (d : Direction) :
    Attempt.Keeps (Hearing id start .copy 0) (Exchange.retire d : Exchange Watched Unit) := by
  cases d with
  | outbound => exact (scope_hearing id start .copy 0).keeps_retire (.inl rfl)
  | inbound =>
      rintro l w ⟨s, hs, hcounted, h⟩
      have hget : l.streams.get .inbound = some s := hs
      refine Exchange.wp_retire hget fun log =>
        ⟨_, Streams.get_setChannel_self hget _, hcounted.retire, h.mono (Nat.le_of_eq ?_)⟩
      exact congrArg (· * s.ring.slotSize) (Channel.hwCount_retire s.channel)

theorem keeps_moveBatch_hearing (id : Nat) (start : World Watched) (d : Direction) :
    Attempt.Keeps (Hearing id start .copy 0) (Exchange.moveBatch (device id) d) := by
  cases d with
  | outbound => exact (scope_hearing id start .copy 0).keeps_moveBatch (.inl rfl)
  | inbound =>
      refine .bind (keeps_retire_hearing id start _) fun _ => .bind (Exchange.keeps_stream _)
        fun s => .bind (.ofFaulty _) fun buf => ?_
      intro l w h
      rw [Attempt.wp_bind, Attempt.wp_ask]
      refine Act.wp_mono (h.wp_gain rfl fun _ => trivial) fun reply w₁ h₁ => ?_
      rw [Attempt.wp_bind]
      cases reply with
      | error e => exact h₁
      | ok moved => exact finishBatch_hearing h₁

theorem keeps_submitBatch_hearing (id : Nat) (start : World Watched) (d : Direction) :
    Attempt.Keeps (Hearing id start .copy 0) (Exchange.submitBatch (device id) d) := by
  refine .bind (keeps_retire_hearing id start d) fun _ => .bind (Exchange.keeps_stream d)
    fun s => ?_
  intro l w h
  rw [Attempt.wp_bind, Attempt.wp_ask]
  refine Act.wp_mono (h.wp_gain rfl fun _ => trivial) fun reply w₁ h₁ => ?_
  rw [Attempt.wp_bind]
  cases reply with
  | error e => exact h₁.mono (Nat.zero_le _)
  | ok outcome =>
      rw [Exchange.wp_synced_ok]
      cases outcome with
      | pending => exact h₁.mono (Nat.zero_le _)
      | completed moved =>
          dsimp only
          rw [Attempt.wp_bind]
          refine finishBatch_hearing (h₁.mono ?_)
          cases d <;> exact Nat.le_refl _

theorem keeps_harvest_hearing (id : Nat) (start : World Watched) (timeout : Nat) :
    Attempt.Keeps (Hearing id start .copy 0) (Exchange.harvest (device id) timeout) := by
  refine .get_bind fun l => ?_
  dsimp only
  split
  · exact .pure _
  · intro l' w h
    rw [Attempt.wp_bind, Attempt.wp_ask]
    refine Act.wp_mono (h.wp_gain rfl fun _ => trivial) fun reply w₁ h₁ => ?_
    rw [Attempt.wp_bind]
    cases reply with
    | error e => exact h₁
    | ok news =>
        rw [Exchange.wp_synced_ok]
        cases news with
        | none => exact h₁
        | some landing =>
            obtain ⟨d, moved⟩ := landing
            dsimp only
            rw [Attempt.wp_bind, Attempt.wp_modify, Attempt.wp_bind]
            refine finishBatch_hearing (Hearing.mono ?_ (Nat.le_refl _))
            cases d <;> exact h₁

theorem keeps_step_hearing (id : Nat) (start : World Watched) (mode : Mode) (t : Transport) :
    Attempt.Keeps (Hearing id start mode 0) (t.step (device id) mode) := by
  have hscope := scope_hearing id start mode 0
  unfold Transport.step
  cases t.method with
  | polling =>
      refine Exchange.upholds_pollingStep_of _ (hscope.keeps_wait _) fun d => ?_
      cases mode with
      | zeroCopy => exact keeps_syncCounters_hearing id start d
      | copy => exact keeps_moveBatch_hearing id start d
  | overlapped =>
      cases mode with
      | zeroCopy =>
          exact Exchange.upholds_overlappedCounters_of _ (hscope.keeps_wait _)
            (keeps_syncCounters_hearing id start)
      | copy =>
          exact Exchange.keeps_overlappedBatches_of _ (keeps_submitBatch_hearing id start)
            (keeps_harvest_hearing id start)

end Watched

namespace Tenant
open Watched

variable {ts : List Tenant} {t : Tenant} {id : Nat} {start : World Watched} {w w' : World Watched}

/-- A session that is closed, or streams inbound as it should. -/
def Hears (start : World Watched) (w : World Watched) (t : Tenant) : Prop :=
  ∀ live, t.session.live = some live → Hearing t.id start live.mode 0 live.link w

theorem step_hears (h : t.Hears start w) : t.step.wp (fun t' w' => t'.Hears start w') True w := by
  unfold step
  rw [Act.wp_bind]
  cases hs : t.session.live with
  | none =>
      refine Session.wp_step_closed hs fun live hlive => ?_
      cases hs.symm.trans hlive
  | some live =>
      refine Act.wp_mono (Session.wp_step_of_keeps (J := fun _ => True) hs
        (keeps_step_hearing t.id start live.mode live.transport)
        (scope_hearing t.id start live.mode 0).note
        (fun _ _ _ _ => Act.wp_true_iff.mpr fun _ _ _ _ => trivial) (h live hs))
        fun out w' h' live' hlive' => ?_
      rcases h' with ⟨link, hlive, h'⟩ | ⟨hclosed, _⟩
      · cases hlive.symm.trans hlive'
        exact h'
      · cases hclosed.symm.trans hlive'

theorem claim_hears {d : Direction} {update : ByteArray → ByteArray} (h : t.Hears start w) :
    (t.claim d update).wp (fun t' w' => t'.Hears start w') True w := by
  refine wp_claim h fun ring index session memory hclaim live' hlive' => ?_
  obtain ⟨live, stream, hlive, hstream, havail, rfl⟩ := Session.exists_of_claim hclaim
  obtain ⟨s, hs, hcounted, hreceiving⟩ := h live hlive
  cases hlive'
  cases d with
  | outbound => exact ⟨s, hs, hcounted, hreceiving.claimed⟩
  | inbound =>
      cases hs.symm.trans hstream
      refine ⟨_, Streams.get_setChannel_self hstream _, hcounted.advance havail, ?_⟩
      have hsame : reached live.mode { stream with channel := stream.channel.advance } =
          reached live.mode stream := by
        cases live.mode <;> rfl
      show Receiving t.id start live.mode (reached live.mode { stream with
        channel := stream.channel.advance } + 0) _
      rw [hsame]
      exact hreceiving.claimed

/-- What happens through one handle is nothing to a session on another one. -/
theorem Hears.of_others {α : Type} {act : Act Watched α} {u : Tenant} (hu : u.Hears start w)
    (h : ∀ mode n, Receiving u.id start mode n w →
      act.wp (fun _ => Receiving u.id start mode n) True w) :
    act.wp (fun _ w' => u.Hears start w') True w := by
  refine Act.wp_true_iff.mpr fun a w' hact live hlive => ?_
  obtain ⟨s, hs, hcounted, hreceiving⟩ := hu live hlive
  exact ⟨s, hs, hcounted, Act.wp_true_iff.mp (h _ _ hreceiving) a w' hact⟩

theorem upheld_used (id : Nat) :
    Upheld (fun _ => True) True fun _ w => id ≤ w.machine.card.holders.isOpen.length where
  perm _ h := h
  start config tr ts w _ h := by
    have hopened : id ≤ (opened w).machine.card.holders.isOpen.length := by
      rw [holders_opened, List.length_append]
      exact Nat.le_trans h (Nat.le_add_right _ _)
    refine wp_lodge (Act.wp_mono (Watched.wp_start_holders _ config tr (opened w))
      fun out w' h' => ?_)
    cases out with
    | ok s =>
        dsimp only
        rw [h'.2.2.2]
        exact hopened
    | error e =>
        dsimp only
        rw [h', Holders.length_close]
        exact hopened
  step t ts w h := by
    unfold step
    rw [Act.wp_bind]
    refine Act.wp_mono (Watched.wp_step_holders t.id t.session w) fun out w' h' => ?_
    rcases h' with ⟨_, h'⟩ | ⟨_, _, h'⟩
    · rw [Act.wp_pure, h']
      exact h
    · rw [Act.wp_pure, h', Holders.length_close]
      exact h
  claim t ts w d update h := wp_claim h fun _ _ _ _ _ => h
  cleanup t ts w h := by
    refine Act.wp_mono (Watched.wp_leave_holders t.id t.session w).1 fun _ w' h' => ?_
    rw [h'.length]
    exact h
  drop t ts w h := by
    refine Act.wp_mono (Watched.wp_leave_holders t.id t.session w).2 fun _ w' h' => ?_
    rw [h'.length]
    exact h
  inject _ _ _ _ h := wp_inject.mpr h

/-- The session on a handle, if it is open, streams inbound as it should. -/
structure Attuned (id : Nat) (start : World Watched) (ts : List Tenant) (w : World Watched) :
    Prop where
  settled : Settled ts w.machine.card.holders
  used : id ≤ w.machine.card.holders.isOpen.length
  hears : ∀ t ∈ ts, t.id = id → t.Hears start w

namespace Attuned

theorem wp_others {α : Type} {act : Act Watched α} {u : Tenant} (h : Attuned id start (t :: ts) w)
    (hact : ∀ mode n, Receiving id start mode n w → t.id ≠ id →
      t.session.stream .inbound = none → act.wp (fun _ => Receiving id start mode n) True w)
    (hu : u ∈ ts) (hid : u.id = id) : act.wp (fun _ w' => u.Hears start w') True w := by
  refine (h.hears u (List.mem_cons_of_mem _ hu) hid).of_others fun mode n hreceiving => ?_
  have hne := h.settled.id_ne hu
  subst hid
  refine hact mode n hreceiving hne.symm ?_
  rw [← Option.not_isSome_iff_eq_none]
  intro hstream
  have howner := h.settled.owner_of_stream List.mem_cons_self hstream
  rw [Card.owner_holders] at howner
  exact hne (Option.some.inj (hreceiving.owner.symm.trans howner))

theorem wp_next {act : Act Watched Tenant} (h : Attuned id start (t :: ts) w)
    (hid : act.wp (fun t' _ => t'.id = t.id) True w)
    (hsettled : act.wp (fun t' w' => Settled (t' :: ts) w'.machine.card.holders) True w)
    (hused : act.wp (fun _ w' => id ≤ w'.machine.card.holders.isOpen.length) True w)
    (hown : t.Hears start w → act.wp (fun t' w' => t'.Hears start w') True w)
    (hact : ∀ mode n, Receiving id start mode n w → t.id ≠ id →
      t.session.stream .inbound = none → act.wp (fun _ => Receiving id start mode n) True w) :
    act.wp (fun t' => Attuned id start (t' :: ts)) True w := by
  refine Act.wp_true_iff.mpr fun t' w' ht' => ⟨Act.wp_true_iff.mp hsettled t' w' ht',
    Act.wp_true_iff.mp hused t' w' ht', fun u hu huid => ?_⟩
  rcases List.mem_cons.mp hu with rfl | hu
  · have hsame := Act.wp_true_iff.mp hid u w' ht'
    have hears := h.hears t List.mem_cons_self (hsame.symm.trans huid)
    exact Act.wp_true_iff.mp (hown hears) u w' ht'
  · exact Act.wp_true_iff.mp (h.wp_others hact hu huid) t' w' ht'

theorem wp_gone {α : Type} {act : Act Watched α} (h : Attuned id start (t :: ts) w)
    (hsettled : act.wp (fun _ w' => Settled ts w'.machine.card.holders) True w)
    (hused : act.wp (fun _ w' => id ≤ w'.machine.card.holders.isOpen.length) True w)
    (hact : ∀ mode n, Receiving id start mode n w → t.id ≠ id →
      t.session.stream .inbound = none → act.wp (fun _ => Receiving id start mode n) True w) :
    act.wp (fun _ => Attuned id start ts) True w := by
  refine Act.wp_true_iff.mpr fun a w' ha => ⟨Act.wp_true_iff.mp hsettled a w' ha,
    Act.wp_true_iff.mp hused a w' ha, fun u hu huid => ?_⟩
  exact Act.wp_true_iff.mp (h.wp_others hact hu huid) a w' ha

theorem wp_lodge {config : Config} {tr : Transport} (h : Attuned id start ts w) :
    (lodge config tr).wp (fun out w' => match out with
      | (k, .ok s) => Attuned id start (⟨k, s⟩ :: ts) w'
      | (_, .error _) => Attuned id start ts w') True w := by
  have hothers : ∀ u ∈ ts, u.id = id →
      (lodge config tr).wp (fun _ w' => u.Hears start w') True w := by
    intro u hu hid
    refine (h.hears u hu hid).of_others fun mode n hreceiving => Tenant.wp_lodge ?_
    have hne : w.machine.card.handles.size + 1 ≠ u.id :=
      (length_isOpen w.machine.card ▸ h.settled.id_ne_fresh hu).symm
    exact Act.wp_mono (wp_start_receiving hne config tr hreceiving.opened) fun _ _ h' => h'
  have hfresh : (lodge config tr).wp
      (fun out _ => out.1 = w.machine.card.holders.isOpen.length + 1) True w :=
    Tenant.wp_lodge (Act.wp_true_iff.mpr fun _ _ _ => by rw [length_isOpen])
  refine Act.wp_true_iff.mpr fun out w' hlodge => ?_
  have hsettled := Act.wp_true_iff.mp (upheld_settled.start config tr ts w trivial h.settled) out w'
    hlodge
  have hused := Act.wp_true_iff.mp ((upheld_used id).start config tr ts w trivial h.used) out w'
    hlodge
  have hold : ∀ u ∈ ts, u.id = id → u.Hears start w' := fun u hu hid =>
    Act.wp_true_iff.mp (hothers u hu hid) out w' hlodge
  have hk := Act.wp_true_iff.mp hfresh out w' hlodge
  obtain ⟨k, outcome⟩ := out
  cases outcome with
  | error e => exact ⟨hsettled, hused, hold⟩
  | ok s =>
      refine ⟨hsettled, hused, fun u hu hid => ?_⟩
      rcases List.mem_cons.mp hu with rfl | hu
      · have hle := h.used
        rw [← hid, show k = _ from hk] at hle
        exact absurd hle (Nat.not_succ_le_self _)
      · exact hold u hu hid

end Attuned

theorem upheld_attuned (id : Nat) (start : World Watched) :
    Upheld (fun _ => True) True (Attuned id start) where
  perm hperm h :=
    ⟨h.settled.perm hperm, h.used, fun t ht => h.hears t (hperm.mem_iff.mp ht)⟩
  start _ _ _ _ _ h := h.wp_lodge
  step t ts w h := by
    have hid : t.step.wp (fun t' _ => t'.id = t.id) True w := by
      unfold step
      rw [Act.wp_bind]
      exact Act.wp_true_iff.mpr fun _ _ _ => rfl
    refine h.wp_next hid (step_settled h.settled) ((upheld_used id).step t ts w h.used) step_hears
      fun _ _ hreceiving hne hvacant => ?_
    unfold step
    rw [Act.wp_bind]
    exact wp_step_receiving hne hvacant hreceiving
  claim t ts w d update h :=
    h.wp_next (wp_claim rfl fun _ _ _ _ _ => rfl) (claim_settled h.settled)
      ((upheld_used id).claim t ts w d update h.used) claim_hears
      fun _ _ hreceiving _ _ => wp_claim hreceiving fun _ _ _ _ _ => hreceiving.claimed
  cleanup t ts w h :=
    h.wp_gone (upheld_settled.cleanup t ts w h.settled) ((upheld_used id).cleanup t ts w h.used)
      fun _ _ hreceiving hne hvacant => (wp_leave_receiving hne hvacant hreceiving).1
  drop t ts w h :=
    h.wp_gone (upheld_settled.drop t ts w h.settled) ((upheld_used id).drop t ts w h.used)
      fun _ _ hreceiving hne hvacant => (wp_leave_receiving hne hvacant hreceiving).2
  inject mishap ts w _ h := by
    have hears : ∀ u ∈ ts, u.id = id →
        (inject mishap).wp (fun _ w' => u.Hears start w') True w := by
      rintro u hu rfl
      exact (h.hears u hu rfl).of_others fun _ _ hreceiving => hreceiving.inject mishap
    exact ⟨h.settled, h.used, fun u hu hid => hears u hu hid⟩

end Tenant

end DmaStream

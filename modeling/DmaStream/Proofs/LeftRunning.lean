import DmaStream.Kernel.Handle
import DmaStream.Proofs.Run
import DmaStream.Scripted.Kernel

namespace DmaStream

instance decidableEqExcept {ε α : Type} [DecidableEq ε] [DecidableEq α] : DecidableEq (Except ε α)
  | .ok a, .ok b => decidable_of_iff (a = b) (by simp)
  | .error e, .error f => decidable_of_iff (e = f) (by simp)
  | .ok _, .error _ => isFalse (nomatch ·)
  | .error _, .ok _ => isFalse (nomatch ·)

namespace Syscall

instance : (call : Syscall) → DecidableEq call.Reply
  | loopback _ => inferInstanceAs (DecidableEq (Except Nat Unit))
  | engine _ _ => inferInstanceAs (DecidableEq (Except Nat EngineRecord))
  | layout => inferInstanceAs (DecidableEq (Except Nat Layout))
  | lock _ => inferInstanceAs (DecidableEq (Except Nat LockRecord))
  | update _ _ => inferInstanceAs (DecidableEq (Except Nat Unit))
  | map _ _ => inferInstanceAs (DecidableEq (Except Nat RegionId))
  | unmap _ => inferInstanceAs (DecidableEq Unit)
  | poll _ _ => inferInstanceAs (DecidableEq (Except Nat Nat))
  | read _ => inferInstanceAs (DecidableEq (Except Nat Nat))
  | write _ => inferInstanceAs (DecidableEq (Except Nat Nat))
  | close => inferInstanceAs (DecidableEq Unit)

/-- A system call and the answer to it. -/
structure Made where
  call : Syscall
  reply : call.Reply
  deriving DecidableEq

/-- System calls that turn no engine on or off and leave the node open. -/
def quiet : Syscall → Bool
  | engine _ _ => false
  | close => false
  | _ => true

/-- Turn an engine off. -/
def stop (d : Direction) : Syscall := .engine d (.request false)

/-- The kernel turned an engine on and filled in its record. -/
def Made.started (d : Direction) (record : EngineRecord) : Made :=
  ⟨.engine d (.request true), .ok record⟩

end Syscall

open Syscall (Made)

structure Traced (κ : Type) where
  machine : κ
  trace : List Made

namespace Kernel

variable {κ : Type}

/-- The same kernel, and what it has answered so far. -/
def traced (k : Kernel κ) : Kernel (Traced κ) where
  answer call := do
    let reply ← (k.answer call).onPart (·.machine) fun machine t => { t with machine }
    modify fun w => { w with machine.trace := w.machine.trace ++ [⟨call, reply⟩] }
    return reply

theorem wp_traced {k : Kernel κ} {call : Syscall} {Q : call.Reply → World (Traced κ) → Prop}
    {w : World (Traced κ)}
    (hQ : ∀ reply w', w'.machine.trace = w.machine.trace ++ [⟨call, reply⟩] → Q reply w') :
    Act.wp (k.traced.answer call) Q True w := by
  unfold traced
  rw [Act.wp_bind, Act.wp_onPart, Act.wp_true_iff]
  intro reply v _
  rw [Act.wp_bind, Act.wp_modify]
  exact hQ reply _ rfl

variable {k : Kernel κ} {c : Call} {d : Direction} {w : World (Traced κ)}

theorem wp_enableChannel_traced {enable : Bool}
    {Q : Except Error Counts → World (Traced κ) → Prop}
    (hok : ∀ record w', w'.machine.trace =
      w.machine.trace ++ [⟨.engine d (.request enable), .ok record⟩] → Q (record.counts d) w')
    (herror : ∀ errno w', w'.machine.trace =
      w.machine.trace ++ [⟨.engine d (.request enable), .error errno⟩] →
        Q (.error (ioError errno)) w') :
    Act.wp (k.traced.device.answer (.enableChannel d enable)) Q True w := by
  change Act.wp (enableChannel k.traced d enable) Q True w
  unfold enableChannel
  rw [Act.wp_bind]
  refine wp_traced fun reply w' htrace => ?_
  cases reply with
  | ok record => exact hok record w' htrace
  | error errno => exact herror errno w' htrace

theorem wp_quiet (hc : ∀ d enable, c ≠ .enableChannel d enable) (hclose : c ≠ .close) :
    Act.wp (k.traced.device.answer c) (fun _ w' => ∃ calls : List Made,
      w'.machine.trace = w.machine.trace ++ calls ∧ ∀ made ∈ calls, made.call.quiet = true)
      True w := by
  have hone : ∀ (call : Syscall) (reply : call.Reply) (w' : World (Traced κ)),
      call.quiet = true → w'.machine.trace = w.machine.trace ++ [⟨call, reply⟩] →
      ∃ calls : List Made, w'.machine.trace = w.machine.trace ++ calls ∧
        ∀ made ∈ calls, made.call.quiet = true := by
    intro call reply w' hquiet htrace
    exact ⟨_, htrace, fun made hmade => List.mem_singleton.mp hmade ▸ hquiet⟩
  have hnone : ∃ calls : List Made, w.machine.trace = w.machine.trace ++ calls ∧
      ∀ made ∈ calls, made.call.quiet = true :=
    ⟨[], (List.append_nil _).symm, fun _ h => nomatch h⟩
  change Act.wp (serve k.traced c) _ True w
  cases c with
  | enableChannel d enable => exact absurd rfl (hc d enable)
  | close => exact absurd rfl hclose
  | submit d buf => exact hnone
  | waitAny pending timeout => exact hnone
  | cancelAll => exact hnone
  | mapRing d g =>
      unfold serve mapRing
      rw [Act.wp_bind]
      refine wp_traced fun reply w' htrace => ?_
      cases reply with
      | ok region => exact hone _ _ w' rfl htrace
      | error errno => exact hone _ _ w' rfl htrace
  | waitReady interest timeout =>
      unfold serve waitReady
      rw [Act.wp_bind]
      refine wp_traced fun reply w' htrace => ?_
      cases reply with
      | ok events => exact hone _ _ w' rfl htrace
      | error errno => exact hone _ _ w' rfl htrace
  | unmap d mapping => exact wp_traced fun reply w' htrace => hone _ _ w' rfl htrace
  | _ =>
      unfold serve
      rw [Act.wp_bind]
      exact wp_traced fun reply w' htrace => hone _ _ w' rfl htrace

end Kernel

/-- An engine was turned on and not turned off since. -/
def LeftRunning (d : Direction) (calls : List Made) : Prop :=
  ∃ before record after, calls = before ++ .started d record :: after ∧
    ∀ made ∈ after, made.call ≠ .stop d

namespace Syscall

/-- The system calls of a start that goes on: the engines whose counters could be read are those
that run, none is turned off, and the node is open. -/
structure Engaged (calls : List Made) (running : Directions) : Prop where
  opened : ∀ made ∈ calls, made.call ≠ .close
  onward : ∀ made ∈ calls, ∀ d, made.call ≠ stop d
  counted : ∀ d record, .started d record ∈ calls → (record.counts d).isOk = running.has d

/-- The system calls by which a start gives back what it has acquired, the engines of `done` so
far. -/
structure Rolled (calls : List Made) (done : List Direction) : Prop where
  opened : ∀ made ∈ calls, made.call ≠ .close
  stopped : ∀ d, (∃ made ∈ calls, made.call = stop d) ↔ d ∈ done
  idle : ∀ d record, .started d record ∉ calls

variable {calls more : List Made} {running : Directions} {done : List Direction} {d : Direction}
  {record : EngineRecord}

theorem ne_close_of_quiet {call : Syscall} (h : call.quiet = true) : call ≠ .close := by
  rintro rfl
  cases h

theorem ne_engine_of_quiet {call : Syscall} (h : call.quiet = true) : call ≠ .engine d record := by
  rintro rfl
  cases h

theorem started_notMem_of_quiet (h : ∀ made ∈ calls, made.call.quiet = true) :
    .started d record ∉ calls :=
  fun hmem => ne_engine_of_quiet (h _ hmem) rfl

namespace Engaged

theorem none : Engaged [] running where
  opened _ h := nomatch h
  onward _ h := nomatch h
  counted _ _ h := nomatch h

theorem append (h : Engaged calls running) (hmore : Engaged more running) :
    Engaged (calls ++ more) running where
  opened made hmade := (List.mem_append.mp hmade).elim (h.opened made) (hmore.opened made)
  onward made hmade := (List.mem_append.mp hmade).elim (h.onward made) (hmore.onward made)
  counted d record hmade :=
    (List.mem_append.mp hmade).elim (h.counted d record) (hmore.counted d record)

theorem of_quiet (h : ∀ made ∈ calls, made.call.quiet = true) : Engaged calls running where
  opened made hmade := ne_close_of_quiet (h made hmade)
  onward made hmade _ := ne_engine_of_quiet (h made hmade)
  counted _ _ hmade := absurd hmade (started_notMem_of_quiet h)

theorem switch {reply : Except Nat EngineRecord}
    (hreply : ∀ record, reply = .ok record → (record.counts d).isOk = running.has d) :
    Engaged [⟨.engine d (.request true), reply⟩] running where
  opened made hmade := by
    rw [List.mem_singleton.mp hmade]
    exact fun h => nomatch h
  onward made hmade e := by
    rw [List.mem_singleton.mp hmade]
    intro hstop
    cases hstop
  counted e record hmade := by
    have hsame := List.mem_singleton.mp hmade
    obtain ⟨hcall, hreply'⟩ := Made.mk.inj hsame
    cases hcall
    exact hreply record (eq_of_heq hreply').symm

end Engaged

namespace Rolled

theorem none : Rolled [] [] where
  opened _ h := nomatch h
  stopped _ := ⟨fun ⟨_, h, _⟩ => (nomatch h), fun h => nomatch h⟩
  idle _ _ h := nomatch h

theorem quiet (h : Rolled calls done) (hmore : ∀ made ∈ more, made.call.quiet = true) :
    Rolled (calls ++ more) done where
  opened made hmade :=
    (List.mem_append.mp hmade).elim (h.opened made) fun h => ne_close_of_quiet (hmore made h)
  stopped d := by
    rw [← h.stopped d]
    constructor
    · rintro ⟨made, hmade, hstop⟩
      rcases List.mem_append.mp hmade with hmade | hmade
      · exact ⟨made, hmade, hstop⟩
      · exact absurd hstop (ne_engine_of_quiet (hmore made hmade))
    · rintro ⟨made, hmade, hstop⟩
      exact ⟨made, List.mem_append_left _ hmade, hstop⟩
  idle d record hmade :=
    (List.mem_append.mp hmade).elim (h.idle d record) (started_notMem_of_quiet hmore)

theorem stop (h : Rolled calls done) (reply : Except Nat EngineRecord) :
    Rolled (calls ++ [⟨.engine d (.request false), reply⟩]) (done ++ [d]) where
  opened made hmade := by
    rcases List.mem_append.mp hmade with hmade | hmade
    · exact h.opened made hmade
    · rw [List.mem_singleton.mp hmade]
      exact fun h => nomatch h
  stopped e := by
    rw [List.mem_append, ← h.stopped e, List.mem_singleton]
    constructor
    · rintro ⟨made, hmade, hstop⟩
      rcases List.mem_append.mp hmade with hmade | hmade
      · exact .inl ⟨made, hmade, hstop⟩
      · rw [List.mem_singleton.mp hmade] at hstop
        cases hstop
        exact .inr rfl
    · rintro (⟨made, hmade, hstop⟩ | rfl)
      · exact ⟨made, List.mem_append_left _ hmade, hstop⟩
      · exact ⟨_, List.mem_append_right _ (List.mem_singleton_self _), rfl⟩
  idle e record hmade := by
    rcases List.mem_append.mp hmade with hmade | hmade
    · exact h.idle e record hmade
    · cases List.mem_singleton.mp hmade

end Rolled

/-- The engines whose counters could be read are turned off, and no other. -/
theorem leftRunning_iff_of_rolled (h : Engaged calls running) (hmore : Rolled more running.toList) :
    LeftRunning d (calls ++ more) ↔
      ∃ record, .started d record ∈ calls ++ more ∧ (record.counts d).isOk = false := by
  constructor
  · rintro ⟨before, record, after, hcalls, hrest⟩
    refine ⟨record, by rw [hcalls]; exact List.mem_append_right _ List.mem_cons_self, ?_⟩
    rcases List.append_eq_append_iff.mp hcalls with ⟨mid, _, hmid⟩ | ⟨mid, hmid, hafter⟩
    · have hmem : .started d record ∈ more := by
        rw [hmid]
        exact List.mem_append_right _ List.mem_cons_self
      exact absurd hmem (hmore.idle d record)
    · cases mid with
      | nil =>
          have hmem : .started d record ∈ more := by
            rw [← List.nil_append more, ← hafter]
            exact List.mem_cons_self
          exact absurd hmem (hmore.idle d record)
      | cons first mid =>
          obtain ⟨rfl, rfl⟩ := List.cons.inj hafter
          have hmem : .started d record ∈ calls := by
            rw [hmid]
            exact List.mem_append_right _ List.mem_cons_self
          rw [h.counted d record hmem, Bool.eq_false_iff]
          intro hd
          obtain ⟨made, hmade, hstop⟩ := (hmore.stopped d).mpr (Directions.mem_toList.mpr hd)
          exact hrest made (List.mem_append_right _ hmade) hstop
  · rintro ⟨record, hmem, hcounts⟩
    have hmem := (List.mem_append.mp hmem).resolve_right (hmore.idle d record)
    obtain ⟨before, after, hcalls⟩ := List.append_of_mem hmem
    refine ⟨before, record, after ++ more, by rw [hcalls, List.append_assoc]; rfl, ?_⟩
    intro made hmade hstop
    rcases List.mem_append.mp hmade with hmade | hmade
    · refine h.onward made ?_ d hstop
      rw [hcalls]
      exact List.mem_append_right _ (List.mem_cons_of_mem _ hmade)
    · have hd := Directions.mem_toList.mp ((hmore.stopped d).mp ⟨made, hmade, hstop⟩)
      rw [Directions.mem_iff_has, ← h.counted d record hmem, hcounts] at hd
      cases hd

end Syscall

namespace Setup
open Syscall
open Attempt hiding ask

variable {κ : Type} {k : Kernel κ} {config : Config} {before calls more : List Made}
  {held : Holdings} {d : Direction} {w w' : World (Traced κ)}

/-- A start that has been stopped, seen by its system calls. -/
def Arrested (before : List Made) (held : Holdings) (w : World (Traced κ)) : Prop :=
  ∃ calls, w.machine.trace = before ++ calls ∧ Engaged calls held.running

/-- A start that goes on: the counters of every engine turned on could be read. -/
def Ongoing (before : List Made) (held : Holdings) (w : World (Traced κ)) : Prop :=
  ∃ calls, w.machine.trace = before ++ calls ∧ Engaged calls held.running ∧
    ∀ d record, .started d record ∈ calls → held.running.has d = true

theorem Ongoing.arrested (h : Ongoing before held w) : Arrested before held w := by
  obtain ⟨calls, htrace, hengaged, _⟩ := h
  exact ⟨calls, htrace, hengaged⟩

theorem Ongoing.of_quiet (htrace : w.machine.trace = before ++ calls)
    (hquiet : ∀ made ∈ calls, made.call.quiet = true) : Ongoing before held w :=
  ⟨calls, htrace, .of_quiet hquiet, fun _ _ h => absurd h (started_notMem_of_quiet hquiet)⟩

theorem Ongoing.quiet (h : Ongoing before held w) (htrace : w'.machine.trace =
    w.machine.trace ++ more) (hquiet : ∀ made ∈ more, made.call.quiet = true) :
    Ongoing before held w' := by
  obtain ⟨calls, hcalls, hengaged, hrunning⟩ := h
  refine ⟨calls ++ more, by rw [htrace, hcalls, List.append_assoc],
    hengaged.append (.of_quiet hquiet), fun d record hmem => ?_⟩
  exact hrunning d record ((List.mem_append.mp hmem).resolve_right (started_notMem_of_quiet hquiet))

theorem Ongoing.call {c : Call} (h : Ongoing before held w)
    (hc : ∀ d enable, c ≠ .enableChannel d enable) (hclose : c ≠ .close) :
    Act.wp (k.traced.device.answer c) (fun _ => Ongoing before held) True w :=
  Act.wp_mono (Kernel.wp_quiet hc hclose) fun _ _ ⟨_, htrace, hquiet⟩ => h.quiet htrace hquiet

theorem ongoing_preparing : Preparing k.traced.device (Ongoing (κ := κ) before) where
  call c held w hc h := h.call (by rintro d enable rfl; cases hc) (by rintro rfl; cases hc)
  memory _ _ _ h := h
  note _ _ _ h := h
  streams _ _ _ h := h

theorem Preparing.fixed {σ : Type} {dev : Device σ} {I : Holdings → World σ → Prop}
    (h : Preparing dev I) (running : Directions) :
    Preparing dev fun held w => held.running = running ∧ I held w where
  call c held w hc hI := Act.wp_mono (h.call c held w hc hI.2) fun _ _ hI' => ⟨hI.1, hI'⟩
  memory _ _ _ hI := ⟨hI.1, h.memory _ _ _ hI.2⟩
  note _ _ _ hI := ⟨hI.1, h.note _ _ _ hI.2⟩
  streams _ _ _ hI := ⟨hI.1, h.streams _ _ _ hI.2⟩

/-- An engine that was off is turned on, unless its counters cannot be read. -/
theorem wp_switch (h : Ongoing before held w) (hoff : held.running.has d = false) :
    Act.wp (k.traced.device.answer (.enableChannel d true)) (fun reply w' => match reply with
      | .ok _ => Ongoing before { held with running := held.running.insert d } w'
      | .error _ => Arrested before held w') True w := by
  obtain ⟨calls, hcalls, hengaged, hrunning⟩ := h
  have hmore : ∀ e record, .started e record ∈ calls →
      (held.running.insert d).has e = held.running.has e := by
    intro e record hmem
    simp [hrunning e record hmem]
  refine Kernel.wp_enableChannel_traced (fun record w' htrace => ?_) fun errno w' htrace => ?_
  · cases hcounts : record.counts d with
    | error e =>
        refine ⟨calls ++ [.started d record], by rw [htrace, hcalls, List.append_assoc]; rfl,
          hengaged.append (.switch ?_)⟩
        rintro _ ⟨⟩
        rw [hcounts, hoff]
        rfl
    | ok counts =>
        refine ⟨calls ++ [.started d record], by rw [htrace, hcalls, List.append_assoc]; rfl,
          .append ⟨hengaged.opened, hengaged.onward, fun e record hmem => ?_⟩ (.switch ?_),
          fun e record hmem => ?_⟩
        · rw [hmore e record hmem]
          exact hengaged.counted e record hmem
        · rintro _ ⟨⟩
          rw [hcounts]
          simp [Except.isOk, Except.toBool]
        · rcases List.mem_append.mp hmem with hmem | hmem
          · rw [hmore e record hmem]
            exact hrunning e record hmem
          · have hsame := (Made.mk.inj (List.mem_singleton.mp hmem)).1
            cases hsame
            simp
  · exact ⟨calls ++ [⟨.engine d (.request true), .error errno⟩],
      by rw [htrace, hcalls, List.append_assoc],
      hengaged.append (.switch fun record heq => by cases heq)⟩

theorem wp_enable_each (h : Ongoing before held w) (hoff : held.running = ∅) (dirs : Directions) :
    Attempt.wp (dirs.toList.forM (enable k.traced.device)) (fun _ _ _ => True)
      (fun _ => Arrested before) True held w := by
  have hround : ∀ (done : List Direction) (d : Direction) (rest : List Direction) (held : Holdings)
      (w : World (Traced κ)), dirs.toList = done ++ d :: rest →
      Ongoing before held w ∧ (∀ d, held.running.has d = true → d ∈ done) →
      (enable k.traced.device d).wp (fun _ held w => Ongoing before held w ∧
        ∀ e, held.running.has e = true → e ∈ done ++ [d]) (fun _ => Arrested before) True held
        w := by
    rintro done d rest held w hdirs ⟨h, hdone⟩
    have hoff : held.running.has d = false := Bool.eq_false_iff.mpr fun hd =>
      Directions.notMem_of_toList_eq hdirs (hdone d hd)
    refine wp_mono (ongoing_preparing.wp_enable (wp_switch h hoff)) (fun _ held' w' h' => ?_)
      fun _ _ _ h => h
    refine ⟨h'.1, fun e he => ?_⟩
    rw [h'.2, Directions.has_insert_iff] at he
    exact List.mem_append.mpr (he.imp (hdone e) fun heq => List.mem_singleton.mpr heq)
  refine wp_mono (wp_forM_done (fun done held w => Ongoing before held w ∧
    ∀ d, held.running.has d = true → d ∈ done) ⟨h, fun d hd => ?_⟩ hround)
    (fun _ _ _ _ => trivial) fun _ _ _ h => h
  rw [hoff, Directions.has_empty] at hd
  cases hd

theorem wp_takeLock_quiet {wanted : Directions} :
    (takeLock k.traced.device wanted).wp (fun _ held w' => held.running = ∅ ∧
        Ongoing w.machine.trace held w')
      (fun _ => Arrested w.machine.trace) True .none w := by
  have hyields : k.traced.device.Yields (fun _ _ => True) (Ongoing w.machine.trace .none) :=
    { call := fun c v hc h => h.call (by rintro d enable rfl; cases hc) (by rintro rfl; cases hc)
      free := fun _ _ h => h
      note := fun _ _ h => h }
  have hstart : Ongoing w.machine.trace .none w :=
    .of_quiet (List.append_nil _).symm fun _ h => nomatch h
  refine wp_mono (takeLock_yields hyields (fun v h => h.call (fun _ _ h => nomatch h)
    (fun h => nomatch h)) hstart) (fun _ held w' h' => ?_) fun e held w' h' => ?_
  · obtain ⟨hrunning, calls, htrace, hengaged, hnone⟩ := h'
    refine ⟨hrunning, calls, htrace, ?_, ?_⟩ <;> rw [hrunning]
    · exact hengaged
    · exact hnone
  · rw [h'.1]
    exact h'.2.arrested

theorem wp_run_arrested :
    (run k.traced.device config).wp (fun _ _ _ => True) (fun _ => Arrested w.machine.trace) True
      .none w := by
  refine (ongoing_preparing.fixed ∅).wp_run (fun e held w h => h.2.arrested) wp_takeLock_quiet
    (fun held w h => ?_) fun held w h => wp_enable_each h.2 h.1 config.directions
  refine Act.wp_mono (h.2.call (fun _ _ h => nomatch h) (fun h => nomatch h)) fun reply w' h' => ?_
  cases reply with
  | ok u => exact ⟨h.1, h'⟩
  | error e => exact h'.arrested

theorem wp_giveBack_rolled (held : Holdings) :
    (held.giveBack k.traced.device).wp (fun _ w' => ∃ more, w'.machine.trace =
      w.machine.trace ++ more ++ [⟨.close, ()⟩] ∧ Rolled more held.running.toList) True w := by
  refine Device.Leaves.ends_giveBack (I := fun done v => ∃ more,
    v.machine.trace = w.machine.trace ++ more ∧ Rolled more done) ?_
    ⟨[], (List.append_nil _).symm, .none⟩
  refine ⟨fun done => ⟨fun c v hc h => ?_, fun _ _ h => h, fun _ _ h => h⟩,
    fun done d v _ h => ?_, fun v h => ?_, fun _ _ h => h⟩
  · obtain ⟨more, hmore, hrolled⟩ := h
    refine Act.wp_mono (Kernel.wp_quiet ?_ ?_) fun _ v' ⟨quiet, htrace, hquiet⟩ =>
      ⟨more ++ quiet, by rw [htrace, hmore, List.append_assoc], hrolled.quiet hquiet⟩
    · rintro d enable rfl
      cases hc
    · rintro rfl
      cases hc
  · obtain ⟨more, hmore, hrolled⟩ := h
    have hlast : ∀ reply, w.machine.trace ++ more ++ [⟨.engine d (.request false), reply⟩] =
        w.machine.trace ++ (more ++ [⟨.engine d (.request false), reply⟩]) :=
      fun _ => List.append_assoc _ _ _
    refine Kernel.wp_enableChannel_traced (fun record v' htrace => ?_) fun errno v' htrace => ?_
    · exact ⟨_, by rw [htrace, hmore, hlast], hrolled.stop _⟩
    · exact ⟨_, by rw [htrace, hmore, hlast], hrolled.stop _⟩
  · obtain ⟨more, hmore, hrolled⟩ := h
    refine Act.ends_iff_wp.mpr (Kernel.wp_traced fun reply v' htrace => ⟨more, ?_, hrolled⟩)
    rw [htrace, hmore]

end Setup

namespace Session

variable {κ : Type} {k : Kernel κ} {config : Config} {e : Error} {w w' : World (Traced κ)}

/-- When a start on a device node fails, whatever the kernel answers, the node is closed last, and
an engine that was turned on is not turned off before if and only if the counters that the kernel
filled in with it could not be read. -/
theorem polling_leftRunning_iff (hfail : polling k.traced.device config w = .ok (.error e) w') :
    ∃ calls, w'.machine.trace = w.machine.trace ++ calls ++ [⟨.close, ()⟩] ∧
      (∀ made ∈ calls, made.call ≠ .close) ∧
      ∀ d, LeftRunning d calls ↔
        ∃ record, .started d record ∈ calls ∧ (record.counts d).isOk = false := by
  have hpolling : (polling k.traced.device config).wp (fun out w' => ∀ e, out = .error e →
      ∃ calls running more,
        w'.machine.trace = w.machine.trace ++ (calls ++ more) ++ [⟨.close, ()⟩] ∧
        Syscall.Engaged calls running ∧ Syscall.Rolled more running.toList) True w := by
    refine wp_start (fun flaw _ => ?_) (fun _ => Setup.wp_run_arrested)
      (fun _ _ _ _ _ _ heq => nomatch heq) fun e held w₁ ⟨calls, htrace, hengaged⟩ => ?_
    · refine Kernel.wp_traced fun reply w' htrace e _ => ?_
      exact ⟨[], ∅, [], by rw [htrace, List.append_nil, List.append_nil], .none, .none⟩
    · refine Act.wp_mono (Setup.wp_giveBack_rolled held) fun _ w₂ ⟨more, hmore, hrolled⟩ e _ => ?_
      exact ⟨calls, held.running, more, by rw [hmore, htrace, List.append_assoc w.machine.trace],
        hengaged, hrolled⟩
  obtain ⟨calls, running, more, htrace, hengaged, hrolled⟩ :=
    Act.wp_true_iff.mp hpolling _ _ hfail e rfl
  exact ⟨calls ++ more, htrace,
    fun made hmade => (List.mem_append.mp hmade).elim (hengaged.opened made) (hrolled.opened made),
    fun d => Syscall.leftRunning_iff_of_rolled hengaged hrolled⟩

end Session

/-- The kernel reports a count below zero when the outbound engine is first switched. -/
def KernelScript.garbled : KernelScript :=
  { empty with engine := ⟨[], [.value (-1, 0)]⟩ }

def World.garbled : World (Traced KernelScript) :=
  ⟨⟨.garbled, []⟩, .empty, #[]⟩

/-- The inbound engine is turned off again and the outbound engine left running. -/
theorem Session.polling_leftRunning_iff_garbled : ∃ e w' calls,
    polling KernelScript.kernel.traced.device (.steady false) .garbled = .ok (.error e) w' ∧
    w'.machine.trace = calls ++ [⟨.close, ()⟩] ∧
    LeftRunning .outbound calls ∧ ¬ LeftRunning .inbound calls := by
  have hgarbled : decide ((polling KernelScript.kernel.traced.device (.steady false)).wp
      (fun out w' => out.isOk = false ∧
        Made.started .outbound ⟨true, -1, 0⟩ ∈ w'.machine.trace ∧
        ∀ made ∈ w'.machine.trace, made.call = .engine .inbound (.request true) →
          made = .started .inbound (.request true)) False .garbled) = true := by decide +kernel
  obtain ⟨out, w', hrun, hout, hoff, hin⟩ := Act.exists_of_decide hgarbled
  cases out with
  | ok s => cases hout
  | error e =>
      obtain ⟨calls, htrace, _, hiff⟩ := polling_leftRunning_iff hrun
      have hlast : w'.machine.trace = calls ++ [⟨.close, ()⟩] := htrace
      rw [hlast] at hoff hin
      refine ⟨e, w', calls, hrun, hlast, (hiff .outbound).mpr ⟨⟨true, -1, 0⟩, ?_, by decide⟩, ?_⟩
      · exact (List.mem_append.mp hoff).resolve_right (by decide)
      · intro hleft
        obtain ⟨record, hmem, hcounts⟩ := (hiff .inbound).mp hleft
        cases hin _ (List.mem_append_left _ hmem) rfl
        cases hcounts

end DmaStream

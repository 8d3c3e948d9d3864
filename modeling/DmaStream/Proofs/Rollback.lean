import Mathlib.Data.List.Basic
import DmaStream.Proofs.Run
import DmaStream.Proofs.Transcript

/-!
A start that fails, whatever the device answers. What it has acquired is read off the calls it made
until then. Main statement: all of it is given back afterwards, with the handle last, and the error
is the one that stopped the start.
-/
namespace DmaStream

/-- The calls by which a start acquires what a session holds. -/
def Call.acquires : Call → Bool
  | .requestLock _ => true
  | .setLoopback _ => true
  | .ringLayout => true
  | .mapRing _ _ => true
  | .enableChannel _ enable => enable
  | _ => false

namespace Event

/-- The directions a request for locks was granted. -/
def grant : Event → Option Directions
  | .called (.requestLock _) (.ok granted) _ _ => some granted
  | _ => none

/-- The engine that was turned on. -/
def started : Event → Option Direction
  | .called (.enableChannel d true) (.ok _) _ _ => some d
  | _ => none

/-- The call that gives back the ring that was mapped. -/
def mapped : Event → Option Call
  | .called (.mapRing d _) (.ok mapping) _ _ => some (.unmap d mapping)
  | _ => none

/-- The layout the driver has reported. -/
def layout : Event → Option Layout
  | .called .ringLayout (.ok layout) _ _ => some layout
  | _ => none

/-- From a call that failed nothing was got. -/
theorem got_nothing {c : Call} {reply : Reply c} {e : Error} (h : Reply.failure c reply = some e)
    (m m' : Memory) :
    (called c reply m m').grant = none ∧ (called c reply m m').started = none ∧
      (called c reply m m').mapped = none := by
  refine ⟨?_, ?_, ?_⟩
  · unfold grant
    split
    · next heq =>
        cases heq
        cases h
    · rfl
  · unfold started
    split
    · next heq =>
        cases heq
        cases h
    · rfl
  · unfold mapped
    split
    · next heq =>
        cases heq
        cases h
    · rfl

end Event

namespace Journal

/-- The directions that were granted first. -/
def granted (j : Journal) : Directions :=
  (j.findSome? Event.grant).getD ∅

/-- The engines that were turned on. -/
def started (j : Journal) : List Direction :=
  j.filterMap Event.started

/-- The calls that give back the rings that were mapped. -/
def mapped (j : Journal) : List Call :=
  j.filterMap Event.mapped

end Journal

namespace Streams

variable {s : Streams} {d e : Direction}

theorem get_of_setChannel {c : Channel} {b : Stream} (h : (s.setChannel d c).get e = some b) :
    ∃ a, s.get e = some a ∧ b.ring = a.ring := by
  rw [get_setChannel] at h
  split at h
  · obtain ⟨a, ha, rfl⟩ := Option.map_eq_some_iff.mp h
    exact ⟨a, ha, rfl⟩
  · exact ⟨b, h, rfl⟩

theorem surrender_setChannel (s : Streams) (d : Direction) (c : Channel) :
    (s.setChannel d c).surrender = s.surrender := by
  have hone : ∀ e, (s.setChannel d c).surrenderOne e = s.surrenderOne e := by
    intro e
    unfold surrenderOne
    rw [get_setChannel]
    by_cases heq : e = d
    · rw [if_pos heq]
      cases s.get e <;> rfl
    · rw [if_neg heq]
  unfold surrender
  rw [funext hone]

theorem surrender_set (h : s.get d = Option.none) (a : Stream) :
    surrender (s.set d (some a)) |>.Perm (a.ring.surrender d ++ s.surrender) := by
  have hgone : s.surrenderOne d = [] := by
    unfold surrenderOne
    rw [h]
  have hall : ∀ r : Streams, r.surrender = r.surrenderOne .inbound ++ r.surrenderOne .outbound :=
    fun r => congrArg (_ ++ ·) (List.append_nil _)
  rw [hall, hall]
  cases d with
  | inbound =>
      rw [hgone]
      exact .refl _
  | outbound =>
      rw [hgone, List.append_nil]
      exact List.perm_append_comm

end Streams

namespace Memory

variable {m m' : Memory}

/-- Memory after some more requests, whatever was granted. -/
def later (m : Memory) (n : Nat) : Memory := { m with requests := m.requests + n }

/-- The allocator grants `granted` requests for `len` bytes, and refuses the one after them. -/
def Denies (m : Memory) (granted len : Nat) : Prop :=
  (∀ k < granted, (m.later k).affords len = true) ∧ (m.later granted).affords len = false

theorem affords_eq_later {n : Nat} (hgrants : m'.grants = m.grants)
    (hrequests : m'.requests = m.requests + n) (len : Nat) :
    m'.affords len = (m.later n).affords len := by
  unfold affords
  rw [hgrants, hrequests]
  rfl

end Memory

theorem Lock.releases_empty_inter (dirs : Directions) : Lock.releases (∅ ∩ dirs) = [] := by
  have hempty : (∅ ∩ dirs : Directions) = ∅ := congrArg Directions.mk (BitVec.zero_and)
  rw [hempty]
  rfl

namespace Setup

/-- Why a start stops, judged by the calls it has made: one of them has failed, or the session
itself finds something wrong. -/
inductive Halts (config : Config) : Journal → Error → Prop where
  | failed {before : Journal} {c : Call} {reply : Reply c} {m m' : Memory} {e : Error}
    (quiet : before.failures = []) (failure : Reply.failure c reply = some e) :
    Halts config (before ++ [.called c reply m m']) e
  | denied {granted : Directions} {m m' : Memory}
    (missing : (config.directions \ (granted ∩ config.directions)).isEmpty = false) :
    Halts config [.called (.requestLock config.directions) (.ok granted) m m']
      (.lockDenied (config.directions \ (granted ∩ config.directions)))
  | geometry {setup : Journal} {layout : Layout} {d : Direction} {flaw : ConfigFlaw}
    (quiet : setup.failures = []) (reported : layout ∈ setup.filterMap Event.layout)
    (wanted : d ∈ config.directions)
    (bad : checkGeometry (layout.get d).slotSize (layout.get d).slotCount = .error flaw) :
    Halts config setup (.invalidConfig flaw)
  | short {before : Journal} {d : Direction} {g : Geometry} {mapping : Mapping} {m m' : Memory}
    (quiet : before.failures = []) (less : mapping.len < g.len) :
    Halts config (before ++ [.called (.mapRing d g) (.ok mapping) m m'])
      (.mapFailed (.short mapping.len g.len))
  /-- Since the last call the rings ahead of this one were granted, and this one is refused. -/
  | allocation {setup : Journal} {c : Call} {reply : Reply c} {m m' : Memory} {d : Direction}
    (quiet : setup.failures = []) (last : setup.getLast? = some (.called c reply m m'))
    (copied : config.mode = .copy) (wanted : d ∈ config.directions)
    (refused : m'.Denies (config.directions.toList.idxOf d)
      (config.slotSize * config.slotCount)) :
    Halts config setup (.allocationFailure d (config.slotSize * config.slotCount))

/-- The calls a start has made so far, and what it holds by them. -/
structure Acquired (config : Config) (setup : Journal) (held : Holdings) : Prop where
  acquires : ∀ e ∈ setup, ∃ c, e.call = some c ∧ c.acquires = true
  stored : held.streams.Stored config.mode.storage
  nodup : setup.started.Nodup
  running : ∀ d, d ∈ setup.started ↔ d ∈ held.running

/-- A start under way: `pending` gives back what it has mapped and not made a stream of yet. -/
structure Forward (config : Config) (setup : Journal) (pending : List Call) (held : Holdings) : Prop
    extends Acquired config setup held where
  request : ∃ granted m m' rest,
    setup = .called (.requestLock config.directions) (.ok granted) m m' :: rest ∧
      held.lock = granted ∩ config.directions ∧
      ∀ e ∈ rest, ∀ wanted, e.call ≠ some (.requestLock wanted)
  quiet : setup.failures = []
  mapped : setup.mapped.Perm (pending ++ held.streams.surrender)

/-- A start that has stopped. It has given back `gone` and `released` itself, and no lock while an
engine was running. -/
structure Halted (config : Config) (e : Error) (setup : Journal) (gone released : List Call)
    (held : Holdings) : Prop extends Acquired config setup held where
  request : ∃ reply m m' rest, setup = .called (.requestLock config.directions) reply m m' :: rest ∧
    ∀ e ∈ rest, ∀ wanted, e.call ≠ some (.requestLock wanted)
  halts : Halts config setup e
  lock : released ++ Lock.releases held.lock = Lock.releases (setup.granted ∩ config.directions)
  early : released = [] ∨ held.running = ∅
  mapped : setup.mapped.Perm (gone ++ held.streams.surrender)

variable {config : Config} {setup : Journal} {pending pending' : List Call} {held held' : Holdings}
  {c : Call} {reply : Reply c} {m m' : Memory} {e : Error} {d : Direction}

theorem acquired_request (wanted lock : Directions) (reply : Except Error Directions)
    (m m' : Memory) :
    Acquired config [.called (.requestLock wanted) reply m m'] { Holdings.none with lock } where
  acquires e he := by
    rw [List.mem_singleton] at he
    exact ⟨.requestLock wanted, by rw [he]; rfl, rfl⟩
  stored d a ha := by cases d <;> cases ha
  nodup := .nil
  running d := by
    refine ⟨(nomatch ·), fun h => ?_⟩
    change (∅ : Directions).has d = true at h
    rw [Directions.has_empty] at h
    cases h

theorem Acquired.snoc (h : Acquired config setup held) (hc : c.acquires = true)
    (hstarted : (Event.called c reply m m').started = none) :
    Acquired config (setup ++ [.called c reply m m']) held := by
  have hsame : (setup ++ [.called c reply m m'] : Journal).started = setup.started := by
    unfold Journal.started
    rw [List.filterMap_append, List.filterMap_cons, hstarted]
    exact List.append_nil _
  refine ⟨fun e he => ?_, h.stored, ?_, fun d => ?_⟩
  · rcases List.mem_append.mp he with he | he
    · exact h.acquires e he
    · rw [List.mem_singleton.mp he]
      exact ⟨c, rfl, hc⟩
  · rw [hsame]
    exact h.nodup
  · rw [hsame]
    exact h.running d

theorem Acquired.snoc_started {counts : Counts} (h : Acquired config setup held)
    (hnew : d ∉ held.running) :
    Acquired config (setup ++ [.called (.enableChannel d true) (.ok counts) m m'])
      { held with running := held.running.insert d } := by
  have hmore : (setup ++ [.called (.enableChannel d true) (.ok counts) m m'] : Journal).started =
      setup.started ++ [d] :=
    List.filterMap_append
  refine ⟨fun e he => ?_, h.stored, ?_, fun f => ?_⟩
  · rcases List.mem_append.mp he with he | he
    · exact h.acquires e he
    · rw [List.mem_singleton.mp he]
      exact ⟨_, rfl, rfl⟩
  · rw [hmore, List.nodup_append]
    refine ⟨h.nodup, List.pairwise_singleton _ d, fun a ha b hb heq => hnew ?_⟩
    rw [← h.running, ← List.mem_singleton.mp hb, ← heq]
    exact ha
  · rw [hmore, List.mem_append, List.mem_singleton, h.running, Directions.mem_iff_has,
      Directions.mem_iff_has, Directions.has_insert_iff]

namespace Forward

theorem request_snoc (h : Forward config setup pending held)
    (hreq : ∀ wanted, c ≠ .requestLock wanted) (reply : Reply c) (m m' : Memory) :
    ∃ granted m₁ m₂ rest, setup ++ [.called c reply m m'] =
        .called (.requestLock config.directions) (.ok granted) m₁ m₂ :: rest ∧
      held.lock = granted ∩ config.directions ∧
      ∀ e ∈ rest, ∀ wanted, e.call ≠ some (.requestLock wanted) := by
  obtain ⟨granted, m₁, m₂, rest, rfl, hlock, hrest⟩ := h.request
  refine ⟨granted, m₁, m₂, rest ++ [.called c reply m m'], rfl, hlock, fun e he wanted => ?_⟩
  rcases List.mem_append.mp he with he | he
  · exact hrest e he wanted
  · rw [List.mem_singleton.mp he]
    exact fun heq => hreq wanted (Option.some.inj heq)

theorem quiet_snoc (h : Forward config setup pending held) (hok : Reply.failure c reply = none) :
    (setup ++ [.called c reply m m'] : Journal).failures = [] := by
  rw [Journal.failures_append, h.quiet]
  unfold Journal.failures
  rw [List.filterMap_cons, show Event.failure (.called c reply m m') = none from hok]
  rfl

theorem snoc (h : Forward config setup pending held) (hc : c.acquires = true)
    (hreq : ∀ wanted, c ≠ .requestLock wanted) (hok : Reply.failure c reply = none)
    (hstarted : (Event.called c reply m m').started = none)
    (hmapped : (Event.called c reply m m').mapped = none) :
    Forward config (setup ++ [.called c reply m m']) pending held := by
  refine { h.toAcquired.snoc hc hstarted with
    request := h.request_snoc hreq _ _ _
    quiet := h.quiet_snoc hok
    mapped := ?_ }
  unfold Journal.mapped
  rw [List.filterMap_append, List.filterMap_cons, hmapped]
  exact (List.append_nil _).symm ▸ h.mapped

theorem snoc_mapped {g : Geometry} {mapping : Mapping} (h : Forward config setup [] held) :
    Forward config (setup ++ [.called (.mapRing d g) (.ok mapping) m m']) [.unmap d mapping]
      held := by
  refine { h.toAcquired.snoc rfl rfl with
    request := h.request_snoc (by simp) _ _ _
    quiet := h.quiet_snoc rfl
    mapped := ?_ }
  unfold Journal.mapped
  rw [List.filterMap_append]
  exact (h.mapped.append_right _).trans List.perm_append_comm

theorem snoc_started {counts : Counts} (h : Forward config setup pending held)
    (hnew : d ∉ held.running) :
    Forward config (setup ++ [.called (.enableChannel d true) (.ok counts) m m']) pending
      { held with running := held.running.insert d } := by
  refine { h.toAcquired.snoc_started hnew with
    request := h.request_snoc (by simp) _ _ _
    quiet := h.quiet_snoc rfl
    mapped := ?_ }
  unfold Journal.mapped
  rw [List.filterMap_append]
  exact (List.append_nil _).symm ▸ h.mapped

theorem set {a : Stream} (h : Forward config setup (a.ring.surrender d) held)
    (hnew : held.streams.get d = none) (hstorage : a.ring.storage = config.mode.storage) :
    Forward config setup [] { held with streams := held.streams.set d (some a) } := by
  refine { h with stored := fun e b hb => ?_, mapped := h.mapped.trans ?_ }
  · dsimp only at hb
    rw [PerDirection.get_set] at hb
    split at hb
    · cases hb
      exact hstorage
    · exact h.stored e b hb
  · exact (Streams.surrender_set hnew a).symm

theorem setChannel {channel : Channel} (h : Forward config setup pending held) :
    Forward config setup pending
      { held with streams := held.streams.setChannel d channel } := by
  refine { h with stored := fun e b hb => ?_, mapped := ?_ }
  · obtain ⟨a, ha, hring⟩ := Streams.get_of_setChannel hb
    rw [hring]
    exact h.stored e a ha
  · rw [Streams.surrender_setChannel]
    exact h.mapped

theorem halt (h : Forward config setup pending held) (he : Halts config setup e) :
    Halted config e setup pending [] held := by
  obtain ⟨granted, m₁, m₂, rest, rfl, hlock, hrest⟩ := h.request
  exact { h.toAcquired with
    request := ⟨_, m₁, m₂, rest, rfl, hrest⟩
    halts := he
    lock := by rw [hlock]; rfl
    early := .inl rfl
    mapped := h.mapped }

theorem fail (h : Forward config setup pending held) (hc : c.acquires = true)
    (hreq : ∀ wanted, c ≠ .requestLock wanted) (hfail : Reply.failure c reply = some e) :
    Halted config e (setup ++ [.called c reply m m']) pending [] held := by
  obtain ⟨_, hstarted, hmapped⟩ := Event.got_nothing hfail m m'
  obtain ⟨granted, m₁, m₂, rest, heq, hlock, hrest⟩ := h.request_snoc hreq reply m m'
  refine { h.toAcquired.snoc hc hstarted with
    request := ⟨_, m₁, m₂, rest, heq, hrest⟩
    halts := .failed h.quiet hfail
    lock := ?_
    early := .inl rfl
    mapped := ?_ }
  · rw [heq, hlock]
    rfl
  · unfold Journal.mapped
    rw [List.filterMap_append, List.filterMap_cons, hmapped]
    exact (List.append_nil _).symm ▸ h.mapped

end Forward

section Run
open Attempt hiding ask

variable {σ : Type} {dev : Device σ} {j : Journal} {layout : Option Layout}
  {w w' : World (Recorded σ)}

/-- Since the journal was `j` the start has gone on to here. -/
def Advanced (config : Config) (j : Journal) (layout : Option Layout) (pending : List Call)
    (held : Holdings) (w : World (Recorded σ)) : Prop :=
  ∃ setup, w.machine.journal = j ++ setup ∧ Forward config setup pending held ∧
    ∀ l, layout = some l → l ∈ setup.filterMap Event.layout

/-- Since the journal was `j` the start has come to nothing. -/
def Stopped (config : Config) (j : Journal) (e : Error) (held : Holdings)
    (w : World (Recorded σ)) : Prop :=
  ∃ setup rolled gone released, w.machine.journal = j ++ setup ++ rolled ∧
    rolled.map Event.call = (gone ++ released).map some ∧
    Halted config e setup gone released held

/-- Since the last call `n` requests for `len` bytes were granted, and nothing else happened. -/
def Granted (len n : Nat) (w : World (Recorded σ)) : Prop :=
  ∃ (c : Call) (reply : Reply c) (m m' : Memory),
    w.machine.journal.getLast? = some (.called c reply m m') ∧
      w.memory.grants = m'.grants ∧ w.memory.requests = m'.requests + n ∧
      ∀ k < n, (m'.later k).affords len = true

theorem Granted.asked {len n : Nat} (h : Granted len n w) (hyes : w.memory.affords len = true) :
    Granted len (n + 1) { w with memory := (w.memory.asked.alloc len).2 } := by
  obtain ⟨c, reply, m, m', hlast, hgrants, hrequests, hbefore⟩ := h
  refine ⟨c, reply, m, m', hlast, hgrants, ?_, fun k hk => ?_⟩
  · exact congrArg (· + 1) hrequests
  · rcases Nat.lt_succ_iff_lt_or_eq.mp hk with hlt | rfl
    · exact hbefore k hlt
    · rw [← Memory.affords_eq_later hgrants hrequests, hyes]

theorem Advanced.halt (h : Advanced config j layout [] held w)
    (he : ∀ setup : Journal, setup.failures = [] →
      (∀ l, layout = some l → l ∈ setup.filterMap Event.layout) →
      setup.getLast? = w.machine.journal.getLast? → Halts config setup e) :
    Stopped config j e held w := by
  obtain ⟨setup, hj, hforward, hlayout⟩ := h
  have hlast : setup.getLast? = w.machine.journal.getLast? := by
    obtain ⟨_, _, _, _, hfirst, _⟩ := hforward.request
    rw [hj, List.getLast?_append_of_ne_nil _ (by rw [hfirst]; exact List.cons_ne_nil _ _)]
  exact ⟨setup, [], [], [], by rw [hj, List.append_nil], rfl,
    hforward.halt (he setup hforward.quiet hlayout hlast)⟩

theorem Advanced.fail (h : Advanced config j layout [] held w)
    (hj : w'.machine.journal = w.machine.journal ++ [.called c reply m m'])
    (hc : c.acquires = true) (hreq : ∀ wanted, c ≠ .requestLock wanted)
    (hfail : Reply.failure c reply = some e) : Stopped config j e held w' := by
  obtain ⟨setup, hsetup, hforward, _⟩ := h
  refine ⟨setup ++ [.called c reply m m'], [], [], [], ?_, rfl, hforward.fail hc hreq hfail⟩
  rw [hj, hsetup, List.append_nil, List.append_assoc]

theorem Advanced.snoc (h : Advanced config j layout pending held w)
    (hj : w'.machine.journal = w.machine.journal ++ [.called c reply m m'])
    (hnext : ∀ setup, Forward config setup pending held →
      Forward config (setup ++ [.called c reply m m']) pending' held') :
    Advanced config j layout pending' held' w' := by
  obtain ⟨setup, hsetup, hforward, hlayout⟩ := h
  refine ⟨setup ++ [.called c reply m m'], ?_, hnext setup hforward, fun l hl => ?_⟩
  · rw [hj, hsetup, List.append_assoc]
  · rw [List.filterMap_append]
    exact List.mem_append_left _ (hlayout l hl)

theorem takeLock_advanced (hj : w.machine.journal = j) :
    (takeLock dev.recorded config.directions).wp
      (fun _ held w' => Advanced config j none [] held w' ∧ held = { Holdings.none with
        lock := held.lock }) (Stopped config j) True .none w := by
  unfold takeLock
  rw [wp_bind, wp_guarded]
  unfold Lock.acquire
  rw [Act.wp_bind]
  refine Device.wp_recorded_of fun reply w₁ hj₁ => ?_
  rw [hj] at hj₁
  cases reply with
  | error e =>
      refine ⟨[.called (.requestLock config.directions) (.error e) w.memory w₁.memory], [], [], [],
        by rw [hj₁, List.append_nil], rfl, ?_⟩
      exact { acquired_request config.directions ∅ (.error e) w.memory w₁.memory with
        request := ⟨_, _, _, [], rfl, fun f hf => nomatch hf⟩
        halts := @Halts.failed _ [] _ _ _ _ _ rfl rfl
        lock := (Lock.releases_empty_inter config.directions).symm
        early := .inl rfl
        mapped := .refl _ }
  | ok granted =>
      have hfirst := @acquired_request config config.directions
      dsimp only
      split
      · rw [Act.wp_bind, Act.wp_note]
        refine ⟨⟨[.called (.requestLock config.directions) (.ok granted) w.memory w₁.memory], hj₁,
          ?_, fun l hl => nomatch hl⟩, rfl⟩
        exact { hfirst (granted ∩ config.directions) (.ok granted) w.memory w₁.memory with
          request := ⟨granted, _, _, [], rfl, rfl, fun f hf => nomatch hf⟩
          quiet := rfl
          mapped := .refl _ }
      · next hmissing =>
          rw [Act.wp_bind, Act.wp_note, Act.wp_bind]
          refine Lock.wp_drop (.inl trivial) fun es v hes => ?_
          refine ⟨[.called (.requestLock config.directions) (.ok granted) w.memory w₁.memory], es,
            [], Lock.releases (granted ∩ config.directions), ?_, hes.calls, ?_⟩
          · rw [hes.journal, hj₁]
          · exact { hfirst ∅ (.ok granted) w.memory w₁.memory with
              request := ⟨_, _, _, [], rfl, fun f hf => nomatch hf⟩
              halts := .denied (Bool.eq_false_iff.mpr hmissing)
              lock := List.append_nil _
              early := .inr rfl
              mapped := .refl _ }

theorem mapRing_advanced {l : Layout} (hl : layout = some l) (hd : d ∈ config.directions)
    (h : Advanced config j layout [] held w) :
    (mapRing dev.recorded d (l.get d)).wp
      (fun ring held' w' => held' = held ∧ ring.storage = .mapped ∧
        Advanced config j layout (ring.surrender d) held w') (Stopped config j) True held w := by
  unfold mapRing
  cases hshape : checkGeometry (l.get d).slotSize (l.get d).slotCount with
  | error flaw =>
      exact (wp_bind _ _).mpr (h.halt fun setup hquiet hreported _ =>
        .geometry hquiet (hreported l hl) hd hshape)
  | ok u =>
      dsimp only
      unfold Setup.ask
      rw [wp_bind, wp_guarded]
      refine Device.wp_recorded_of fun reply w₁ hj₁ => ?_
      rw [wp_bind]
      cases reply with
      | error e => exact h.fail hj₁ rfl (fun _ heq => nomatch heq) rfl
      | ok mapping =>
          rw [wp_ofReply_ok, wp_bind]
          unfold Ring.ofMapping
          dsimp only
          split
          · trivial
          · split
            · next hless =>
                rw [wp_ofFaulty_ok]
                dsimp only
                rw [wp_bind, wp_guarded]
                refine Device.wp_recorded_of fun reply w₂ hj₂ => ?_
                obtain ⟨setup, hsetup, hforward, _⟩ := h
                have hmapped : Forward config
                    (setup ++ [.called (.mapRing d (l.get d)) (.ok mapping) w.memory w₁.memory])
                    [.unmap d mapping] held := hforward.snoc_mapped
                refine ⟨_, [.called (.unmap d mapping) reply w₁.memory w₂.memory], _, [], ?_, rfl,
                  hmapped.halt (.short hforward.quiet hless)⟩
                rw [hj₂, hj₁, hsetup, List.append_assoc j]
            · exact ⟨rfl, rfl, h.snoc hj₁ fun _ hforward => hforward.snoc_mapped⟩

theorem makeRing_advanced {n : Nat}
    (hvalid : checkGeometry config.slotSize config.slotCount = .ok ())
    (hlayout : layout = none ↔ config.mode = .copy) (hd : d ∈ config.directions)
    (hn : config.directions.toList.idxOf d = n)
    (hgranted : config.mode = .copy → Granted (config.slotSize * config.slotCount) n w)
    (h : Advanced config j layout [] held w) :
    (makeRing dev.recorded config layout d).wp
      (fun ring held' w' => held' = held ∧ ring.storage = config.mode.storage ∧
        (config.mode = .copy → Granted (config.slotSize * config.slotCount) (n + 1) w') ∧
        Advanced config j layout (ring.surrender d) held w') (Stopped config j) True held w := by
  unfold makeRing
  cases layout with
  | some l =>
      have hmode : config.mode = .zeroCopy := by
        cases hm : config.mode with
        | zeroCopy => rfl
        | copy => cases hlayout.mpr hm
      refine wp_mono (mapRing_advanced rfl hd h) (fun ring held' w' h' => ?_) fun _ _ _ h => h
      obtain ⟨hheld, hstorage, h'⟩ := h'
      refine ⟨hheld, ?_, fun hcopy => ?_, h'⟩
      · rw [hstorage, hmode]
        rfl
      · cases hmode.symm.trans hcopy
  | none =>
      have hmode := hlayout.mp rfl
      have hsmall := (checkGeometry_eq_ok_iff.mp hvalid).2.2.2
      dsimp only
      rw [wp_bind, wp_lift]
      unfold Ring.allocate
      dsimp only
      rw [if_neg (Nat.not_le_of_lt hsmall), Act.wp_bind]
      have hmine := hgranted hmode
      refine Act.wp_tryAlloc (fun hyes => ?_) fun hno => ?_
      · exact ⟨rfl, by rw [hmode]; rfl, fun _ => hmine.asked hyes, h⟩
      · obtain ⟨c, reply, m, m', hlast, hgrants, hrequests, hbefore⟩ := hmine
        refine Advanced.halt h fun setup hquiet _ hsetup => .allocation hquiet
          (hsetup.trans hlast) hmode hd ?_
        rw [hn]
        exact ⟨hbefore, (Memory.affords_eq_later hgrants hrequests _).symm.trans hno⟩

theorem makeStream_advanced {n : Nat}
    (hvalid : checkGeometry config.slotSize config.slotCount = .ok ())
    (hlayout : layout = none ↔ config.mode = .copy) (hd : d ∈ config.directions)
    (hn : config.directions.toList.idxOf d = n)
    (hgranted : config.mode = .copy → Granted (config.slotSize * config.slotCount) n w)
    (hnew : held.streams.get d = none) (h : Advanced config j layout [] held w) :
    (makeStream dev.recorded config layout d).wp
      (fun _ held' w' => Advanced config j layout [] held' w' ∧ held'.running = held.running ∧
        (config.mode = .copy → Granted (config.slotSize * config.slotCount) (n + 1) w') ∧
        ∀ e, e ≠ d → held'.streams.get e = held.streams.get e) (Stopped config j) True held w := by
  unfold makeStream
  rw [wp_bind]
  refine wp_mono (makeRing_advanced hvalid hlayout hd hn hgranted h) (fun ring held' w' h' => ?_)
    fun _ _ _ h => h
  obtain ⟨rfl, hstorage, hgranted', setup, hj, hforward, hreported⟩ := h'
  cases config.capacityBound d ring.slotCount with
  | none => trivial
  | some bound =>
      refine ⟨⟨setup, hj, ?_, hreported⟩, rfl, hgranted',
        fun e he => PerDirection.get_set_of_ne _ he _⟩
      exact hforward.set hnew hstorage

theorem sharedLayout_advanced (h : Advanced config j none [] held w) :
    (sharedLayout dev.recorded config.mode).wp
      (fun layout held' w' => held' = held ∧ (layout = none ↔ config.mode = .copy) ∧
        (config.mode = .copy → w' = w) ∧ Advanced config j layout [] held w')
      (Stopped config j) True held w := by
  unfold sharedLayout
  cases hm : config.mode with
  | copy => exact ⟨rfl, ⟨fun _ => rfl, fun _ => rfl⟩, fun _ => rfl, h⟩
  | zeroCopy =>
      dsimp only
      unfold Setup.ask
      rw [wp_bind, wp_guarded]
      refine Device.wp_recorded_of fun reply w₁ hj₁ => ?_
      rw [wp_bind]
      cases reply with
      | error e => exact h.fail hj₁ rfl (fun _ heq => nomatch heq) rfl
      | ok l =>
          obtain ⟨setup, hj, hforward, _⟩ := h
          have hreported : Forward config (setup ++ [.called .ringLayout (.ok l) w.memory
              w₁.memory]) [] held := hforward.snoc rfl (by simp) rfl rfl rfl
          refine ⟨rfl, ⟨(nomatch ·), (nomatch ·)⟩, (nomatch ·), _, ?_, hreported,
            fun l' hl' => ?_⟩
          · rw [hj₁, hj, List.append_assoc]
          · cases hl'
            rw [List.filterMap_append]
            exact List.mem_append_right _ List.mem_cons_self

theorem enable_advanced (hnew : d ∉ held.running) (h : Advanced config j layout [] held w) :
    (enable dev.recorded d).wp
      (fun _ held' w' => Advanced config j layout [] held' w' ∧
        held'.running = held.running.insert d) (Stopped config j) True held w := by
  unfold enable Setup.ask
  rw [wp_bind, wp_guarded]
  refine Device.wp_recorded_of fun reply w₁ hj₁ => ?_
  rw [wp_bind]
  cases reply with
  | error e => exact h.fail hj₁ rfl (fun _ heq => nomatch heq) rfl
  | ok counts =>
      have hstarted := h.snoc hj₁ fun _ hforward => hforward.snoc_started hnew
      rw [wp_ofReply_ok, wp_bind, wp_modify, wp_bind, wp_get]
      dsimp only
      cases hd : held.streams.get d with
      | none => exact ⟨hstarted, rfl⟩
      | some stream =>
          obtain ⟨setup, hj, hforward, hreported⟩ := hstarted
          exact ⟨⟨setup, hj, hforward.setChannel, hreported⟩, rfl⟩

theorem makeStreams_advanced (hvalid : checkGeometry config.slotSize config.slotCount = .ok ())
    (hlayout : layout = none ↔ config.mode = .copy)
    (hgranted : config.mode = .copy → Granted (config.slotSize * config.slotCount) 0 w)
    (hnone : ∀ d, held.streams.get d = none) (h : Advanced config j layout [] held w) :
    (config.directions.toList.forM (makeStream dev.recorded config layout)).wp
      (fun _ held' w' => Advanced config j layout [] held' w' ∧ held'.running = held.running)
      (Stopped config j) True held w := by
  refine wp_mono (wp_forM_done (fun done held' w' => Advanced config j layout [] held' w' ∧
    held'.running = held.running ∧
    (config.mode = .copy → Granted (config.slotSize * config.slotCount) done.length w') ∧
    ∀ d, d ∉ done → held'.streams.get d = none)
    ⟨h, rfl, hgranted, fun d _ => hnone d⟩ fun done d rest held₁ w₁ heq h₁ => ?_)
    (fun _ _ _ h' => ⟨h'.1, h'.2.1⟩) fun _ _ _ h => h
  obtain ⟨hadvanced, hrunning, hgranted₁, hfree⟩ := h₁
  have hnew : d ∉ done := Directions.notMem_of_toList_eq heq
  have hd : d ∈ config.directions :=
    Directions.mem_toList.mp (heq ▸ List.mem_append_right _ List.mem_cons_self)
  have hplace : config.directions.toList.idxOf d = done.length := by
    rw [heq, List.idxOf_append_of_notMem hnew, List.idxOf_cons_self, Nat.add_zero]
  refine wp_mono (makeStream_advanced hvalid hlayout hd hplace hgranted₁ (hfree d hnew) hadvanced)
    (fun _ held₂ w₂ h₂ => ?_) fun _ _ _ h => h
  obtain ⟨hadvanced₂, hrunning₂, hgranted₂, hfree₂⟩ := h₂
  refine ⟨hadvanced₂, hrunning₂.trans hrunning, fun hcopy => ?_, fun e he => ?_⟩
  · rw [List.length_append]
    exact hgranted₂ hcopy
  · rw [List.mem_append, List.mem_singleton, not_or] at he
    rw [hfree₂ e he.2]
    exact hfree e he.1

theorem enableEach_advanced (hidle : held.running = ∅)
    (h : Advanced config j layout [] held w) :
    (config.directions.toList.forM (enable dev.recorded)).wp (fun _ _ _ => True)
      (Stopped config j) True held w := by
  refine wp_mono (wp_forM_done (fun done held' w' => Advanced config j layout [] held' w' ∧
    ∀ d, d ∈ held'.running → d ∈ done) ⟨h, fun d hd => ?_⟩ fun done d rest held₁ w₁ heq h₁ => ?_)
    (fun _ _ _ _ => trivial) fun _ _ _ h => h
  · rw [hidle, Directions.mem_iff_has, Directions.has_empty] at hd
    cases hd
  · have hnew : d ∉ held₁.running := fun hd => Directions.notMem_of_toList_eq heq (h₁.2 d hd)
    refine wp_mono (enable_advanced hnew h₁.1) (fun _ held₂ w₂ h₂ => ⟨h₂.1, fun e he => ?_⟩)
      fun _ _ _ h => h
    rw [h₂.2, Directions.mem_iff_has, Directions.has_insert_iff] at he
    rw [List.mem_append, List.mem_singleton]
    exact he.imp_left fun he => h₁.2 e he

theorem run_stopped (hvalid : checkGeometry config.slotSize config.slotCount = .ok ())
    (hj : w.machine.journal = j) :
    (run dev.recorded config).wp (fun _ _ _ => True) (Stopped config j) True .none w := by
  unfold run
  rw [wp_bind]
  refine wp_mono (takeLock_advanced hj) (fun _ held w₁ h₁ => ?_) fun _ _ _ h => h
  obtain ⟨hadvanced, hheld⟩ := h₁
  unfold Setup.ask
  rw [wp_bind, wp_guarded]
  refine Device.wp_recorded_of fun reply w₂ hj₂ => ?_
  rw [wp_bind]
  cases reply with
  | error e => exact hadvanced.fail hj₂ rfl (fun _ heq => nomatch heq) rfl
  | ok u =>
      have hrouted : Advanced config j none [] held w₂ := hadvanced.snoc hj₂ fun _ hforward =>
        hforward.snoc rfl (fun _ heq => nomatch heq) rfl rfl rfl
      rw [wp_ofReply_ok, wp_bind]
      refine wp_mono (sharedLayout_advanced hrouted) (fun layout held' w₃ h₃ => ?_)
        fun _ _ _ h => h
      obtain ⟨rfl, hlayout, hsame, hadvanced₃⟩ := h₃
      -- Nothing was called since the route was set, so that no ring was asked for yet.
      have hgranted : config.mode = .copy →
          Granted (config.slotSize * config.slotCount) 0 w₃ := by
        intro hcopy
        rw [hsame hcopy]
        exact ⟨.setLoopback config.loopback, .ok u, w₁.memory, w₂.memory,
          by rw [hj₂, List.getLast?_concat], rfl, rfl, fun k hk => absurd hk (Nat.not_lt_zero k)⟩
      have hnone : ∀ d, held'.streams.get d = none := by
        intro d
        rw [hheld]
        exact PerDirection.get_both none d
      rw [wp_bind]
      refine wp_mono (makeStreams_advanced hvalid hlayout hgranted hnone hadvanced₃)
        (fun _ held₄ w₄ h₄ => ?_) fun _ _ _ h => h
      refine enableEach_advanced ?_ h₄.1
      rw [h₄.2, hheld]
      rfl

/-- A start that has failed: the calls that acquire something, and after them those that give it
back. -/
structure Undone (config : Config) (e : Error) (setup rollback : Journal) : Prop where
  acquires : ∀ e ∈ setup, ∃ c, e.call = some c ∧ c.acquires = true
  /-- The lock is asked for first, and never again. -/
  request : ∃ reply m m' rest, setup = .called (.requestLock config.directions) reply m m' :: rest ∧
    ∀ e ∈ rest, ∀ wanted, e.call ≠ some (.requestLock wanted)
  /-- The error is what stopped the start, whatever became of giving things back. -/
  halts : Halts config setup e
  nodup : setup.started.Nodup
  /-- Every engine that was turned on is turned off, what was granted is released after that, every
  ring that was mapped is unmapped, and the handle is closed last; each with one call. -/
  gives : ∃ (gone : List Call) (running : Directions) (unmaps : List Call),
    rollback.map Event.call =
      (gone ++ running.stops ++ Lock.releases (setup.granted ∩ config.directions) ++ unmaps ++
        [Call.close]).map some ∧
    running.toList.Perm setup.started ∧ (gone ++ unmaps).Perm setup.mapped

theorem wp_stopAll {F : Prop} {ds : List Direction} {Q : Unit → World (Recorded σ) → Prop}
    (hF : F ∨ dev.TakesBack) (h : ∀ es v, Asked (ds.map (.enableChannel · false)) w es v → Q () v) :
    Act.wp (ds.forM (Holdings.stopEngine dev.recorded)) Q F w := by
  induction ds generalizing w with
  | nil => exact h [] w (.nil w)
  | cons d rest ih =>
      change Act.wp (do
        Holdings.stopEngine dev.recorded d
        rest.forM (Holdings.stopEngine dev.recorded)) Q F w
      rw [Act.wp_bind]
      unfold Holdings.stopEngine
      rw [Act.wp_bind]
      refine Device.wp_takesBack hF rfl fun reply v hstop => ?_
      cases reply with
      | ok counts => exact ih fun es v' hes => h _ v' (hstop.trans hes)
      | error e => exact ih fun es v' hes => h _ v' (hstop.trans hes.unlogged)

theorem wp_giveBack {F : Prop} (hF : F ∨ dev.TakesBack) (h : Stopped config j e held w) :
    (held.giveBack dev.recorded).wp (fun _ w' => ∃ setup rollback,
      w'.machine.journal = j ++ setup ++ rollback ∧ Undone config e setup rollback) F w := by
  obtain ⟨setup, rolled, gone, released, hj, hcalls, hhalted⟩ := h
  unfold Holdings.giveBack
  rw [Act.wp_bind]
  refine wp_stopAll hF fun es₁ v₁ hes₁ => ?_
  rw [Act.wp_bind]
  refine Lock.wp_drop hF fun es₂ v₂ hes₂ => ?_
  rw [Act.wp_bind]
  refine Streams.wp_discard hF hhalted.stored fun es₃ v₃ hes₃ _ => ?_
  refine Device.wp_takesBack (c := .close) hF rfl fun reply v₄ hclose => ?_
  have hall := (hes₁.trans hes₂).trans hes₃
  have hstopped : held.running.toList.Perm setup.started := by
    rw [List.perm_ext_iff_of_nodup held.running.nodup_toList hhalted.nodup]
    exact fun d => Directions.mem_toList.trans (hhalted.running d).symm
  refine ⟨setup, rolled ++ ((es₁ ++ es₂ ++ es₃) ++ [.called .close reply
    (held.streams.vacate v₃.memory) v₄.memory]), ?_, {
    hhalted with
    gives := ⟨gone, held.running, held.streams.surrender, ?_, hstopped, hhalted.mapped.symm⟩ }⟩
  · rw [hclose.journal]
    change v₃.machine.journal ++ _ = _
    rw [hall.journal, hj]
    simp only [List.append_assoc]
  -- A lock is released before the engines are stopped only where none is running.
  · have hswap : released ++ (held.running.stops ++ Lock.releases held.lock) =
        held.running.stops ++ Lock.releases (setup.granted ∩ config.directions) := by
      rw [← hhalted.lock]
      rcases hhalted.early with hnone | hidle
      · rw [hnone]
        rfl
      · rw [hidle]
        rfl
    have horder : gone ++ held.running.stops ++
          Lock.releases (setup.granted ∩ config.directions) ++ held.streams.surrender ++
            [Call.close] =
        (gone ++ released) ++ ((held.running.stops ++ Lock.releases held.lock ++
          held.streams.surrender) ++ [.close]) := by
      rw [List.append_assoc gone, ← hswap]
      simp only [List.append_assoc]
    have hback : (es₁ ++ es₂ ++ es₃ ++ [.called .close reply (held.streams.vacate v₃.memory)
        v₄.memory] : Journal).map Event.call = (held.running.stops ++ Lock.releases held.lock ++
          held.streams.surrender ++ [Call.close]).map some := by
      rw [List.map_append, hall.calls]
      exact (@List.map_append _ _ some _ [Call.close]).symm
    rw [horder, List.map_append, hcalls, hback, ← List.map_append]

end Run

end Setup

namespace Session

variable {σ : Type} {dev : Device σ} {config : Config} {t : Transport} {e : Error}
  {w w' : World (Recorded σ)}

/-- A start that fails gives back all it has acquired, with one call each, the handle last, and
answers the error that stopped it. On a configuration that is not valid nothing is called but
`close`. -/
theorem start_gives_back (h : start dev.recorded config t w = .ok (.error e) w') :
    (∀ flaw, config.validate = .error flaw → e = .invalidConfig flaw ∧
      w'.machine.journal = w.machine.journal ++ [.called .close () w.memory w'.memory]) ∧
    (config.validate = .ok () → ∃ setup rollback,
      w'.machine.journal = w.machine.journal ++ setup ++ rollback ∧
        Setup.Undone config e setup rollback) := by
  have hstart : (start dev.recorded config t).wp (fun out w' => ∀ e, out = .error e →
      (∀ flaw, config.validate = .error flaw → e = .invalidConfig flaw ∧
        w'.machine.journal = w.machine.journal ++ [.called .close () w.memory w'.memory]) ∧
      (config.validate = .ok () → ∃ setup rollback,
        w'.machine.journal = w.machine.journal ++ setup ++ rollback ∧
          Setup.Undone config e setup rollback)) True w := by
    unfold start
    cases hvalid : config.validate with
    | error flaw =>
        dsimp only
        rw [Act.wp_bind]
        refine Device.wp_takesBack (c := .close) (.inl trivial) rfl fun reply w₁ hclose => ?_
        rintro _ ⟨⟩
        refine ⟨?_, fun hok => nomatch hok⟩
        rintro _ ⟨⟩
        exact ⟨rfl, hclose.journal⟩
    | ok u =>
        dsimp only
        rw [Act.wp_bind]
        refine Act.wp_mono (Setup.run_stopped (Config.checkGeometry_of_validate hvalid) rfl)
          fun out w₁ h₁ => ?_
        obtain ⟨outcome, held⟩ := out
        cases outcome with
        | ok u =>
            intro e he
            cases he
        | error e =>
            dsimp only
            rw [Act.wp_bind]
            refine Act.wp_mono (Setup.wp_giveBack (.inl trivial) h₁) fun _ w₂ h₂ => ?_
            rintro _ ⟨⟩
            exact ⟨fun flaw hflaw => (nomatch hflaw), fun _ => h₂⟩
  exact Act.wp_true_iff.mp hstart _ _ h e rfl

end Session

/-- The steady driver, but its outbound engine does not start. -/
def Device.balky : Device Unit where
  answer
    | .enableChannel .outbound true => return .error (.io (.reported "engine fault"))
    | c => (Device.steady 0).answer c
  backlog _ := 0

theorem Session.start_gives_back_balky : ∃ e w', start Device.balky.recorded (.steady true)
      ⟨.polling, 1⟩ World.steady.recorded = .ok (.error e) w' ∧
    ∃ setup rollback, w'.machine.journal = setup ++ rollback ∧
      Setup.Undone (.steady true) e setup rollback := by
  have hfails : decide ((start Device.balky.recorded (.steady true) ⟨.polling, 1⟩).wp
      (fun out _ => out.isOk = false) False World.steady.recorded) = true := by decide +kernel
  obtain ⟨out, w', hstart, hout⟩ := Act.exists_of_decide hfails
  cases out with
  | ok s => cases hout
  | error e => exact ⟨e, w', hstart, (start_gives_back hstart).2 (by decide +kernel)⟩

/-- The world of the steady driver, but the allocator grants one request and no more. -/
def World.tight : World Unit :=
  { World.steady with memory := { World.steady.memory with grants := fun n _ => n == 0 } }

-- The first private ring is freed where the second one is refused.
example : (Session.start (Device.steady 0).recorded (.steady false) ⟨.polling, 1⟩).wp
    (fun out w' => out.map (fun _ => ()) = .error (.allocationFailure .outbound 16) ∧
      w'.memory.bytes? ⟨2⟩ = none ∧ w'.machine.journal.map Event.call =
        [.requestLock .all, .setLoopback true, .releaseLock .all, .close].map some)
    False World.tight.recorded := by
  decide +kernel

end DmaStream

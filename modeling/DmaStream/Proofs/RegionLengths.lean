import DmaStream.Proofs.Run

namespace DmaStream

namespace Memory

variable {m m' m'' : Memory} {r : RegionId}

/-- No region is lost or changes its length; there may be new ones. -/
def KeepsLengths (m m' : Memory) : Prop :=
  ∀ r b, m.bytes? r = some b → ∃ b', m'.bytes? r = some b' ∧ b'.size = b.size

theorem keepsLengths_rfl (m : Memory) : m.KeepsLengths m :=
  fun _ b hb => ⟨b, hb, rfl⟩

theorem KeepsLengths.trans (h : m.KeepsLengths m') (h' : m'.KeepsLengths m'') :
    m.KeepsLengths m'' := by
  intro r b hb
  obtain ⟨b', hb', hsize⟩ := h r b hb
  obtain ⟨b'', hb'', hsize'⟩ := h' r b' hb'
  exact ⟨b'', hb'', hsize'.trans hsize⟩

theorem keepsLengths_write (m : Memory) (r : RegionId) (off : Nat) (src : ByteArray) :
    m.KeepsLengths (m.write r off src) := by
  intro q b hb
  rw [bytes?_write]
  split
  · next heq =>
      rw [← heq, hb]
      exact ⟨_, rfl, Bytes.size_patch b off src⟩
  · exact ⟨b, hb, rfl⟩

theorem keepsLengths_alloc (m : Memory) (len : Nat) : m.KeepsLengths (m.asked.alloc len).2 :=
  fun _ b hb => ⟨b, bytes?_alloc_of_some len hb, rfl⟩

theorem size_read {b : ByteArray} {off len : Nat} (hb : m.bytes? r = some b)
    (h : off + len ≤ b.size) : (m.read r off len).size = len := by
  unfold read
  rw [hb]
  change (Bytes.slice b off len).size = len
  rw [Bytes.size_slice]
  omega

end Memory

/-- The region of a ring has bytes for all its slots. -/
def Ring.Backed (r : Ring) (m : Memory) : Prop :=
  ∃ b, m.bytes? r.region = some b ∧ r.len ≤ b.size

theorem Ring.Backed.kept {r : Ring} {m m' : Memory} (h : r.Backed m) (hm : m.KeepsLengths m') :
    r.Backed m' := by
  obtain ⟨b, hb, hlen⟩ := h
  obtain ⟨b', hb', hsize⟩ := hm r.region b hb
  exact ⟨b', hb', hsize ▸ hlen⟩

/-- The private rings have their bytes. -/
def Streams.Backed (s : Streams) (m : Memory) : Prop :=
  ∀ d a, s.get d = some a → a.ring.storage = .owned → a.ring.Backed m

namespace Streams.Backed

variable {s : Streams} {m m' : Memory} {d : Direction} {a : Stream}

theorem kept (h : s.Backed m) (hm : m.KeepsLengths m') : s.Backed m' :=
  fun d a ha howned => (h d a ha howned).kept hm

theorem set (h : s.Backed m) (ha : a.ring.storage = .owned → a.ring.Backed m) :
    Streams.Backed (PerDirection.set s d (some a)) m := by
  intro e b hb howned
  rw [PerDirection.get_set] at hb
  split at hb
  · cases hb
    exact ha howned
  · exact h e b hb howned

theorem setChannel (h : s.Backed m) (ha : s.get d = some a) (c : Channel) :
    (s.setChannel d c).Backed m := by
  intro e b hb howned
  rw [Streams.get_setChannel] at hb
  split at hb
  · next heq =>
      subst heq
      rw [ha] at hb
      cases hb
      exact h e a ha howned
  · exact h e b hb howned

end Streams.Backed

/-- A device that neither takes a region away nor changes its length, until it is given back. -/
def Device.KeepsLengths {σ : Type} (dev : Device σ) : Prop :=
  ∀ c w reply w', c.givesBack = false → dev.answer c w = .ok reply w' →
    w.memory.KeepsLengths w'.memory

example (inboundCount : Nat) : (Device.steady inboundCount).KeepsLengths := by
  intro c w reply w' _ h
  have hmemory : w'.memory = w.memory := by
    cases c with
    | enableChannel d enable => cases d <;> cases h <;> rfl
    | _ => cases h; rfl
  rw [hmemory]
  exact Memory.keepsLengths_rfl _

namespace Setup
open Attempt hiding ask

variable {σ : Type} {dev : Device σ} {config : Config} {d : Direction} {held : Holdings}
  {w : World σ}

theorem makeStream_backed {layout : Option Layout} (hdev : dev.KeepsLengths)
    (h : held.streams.Backed w.memory) :
    (makeStream dev config layout d).wp (fun _ held' w' => held'.streams.Backed w'.memory)
      (fun _ _ _ => True) True held w := by
  apply wp_makeStream
  unfold makeRing
  cases layout with
  | some layout =>
      refine wp_mapRing fun _ => Act.wp_true_iff.mpr ?_
      intro reply w' hreply mapping _ _ bound _
      exact (h.kept (hdev _ _ _ _ rfl hreply)).set fun howned => nomatch howned
  | none =>
      dsimp only
      rw [wp_bind, wp_lift]
      unfold Ring.allocate
      dsimp only
      split
      · trivial
      · rw [Act.wp_bind]
        refine Act.wp_tryAlloc (fun _ bound _ => ?_) fun _ => trivial
        refine (h.kept (Memory.keepsLengths_alloc _ _)).set fun _ => ?_
        exact ⟨_, Memory.bytes?_alloc_new _ _, Nat.le_of_eq (Bytes.size_zeros _).symm⟩

theorem enable_backed (hdev : dev.KeepsLengths) (h : held.streams.Backed w.memory) :
    (enable dev d).wp (fun _ held' w' => held'.streams.Backed w'.memory) (fun _ _ _ => True) True
      held w := by
  refine wp_enable (Act.wp_true_iff.mpr fun reply w' hreply counts _ => ?_)
  have hkept := h.kept (hdev _ _ _ _ rfl hreply)
  exact ⟨fun _ => hkept, fun a log ha => hkept.setChannel ha _⟩

theorem run_backed (hdev : dev.KeepsLengths) :
    (run dev config).wp (fun _ held w' => held.streams.Backed w'.memory) (fun _ _ _ => True) True
      .none w := by
  unfold run
  rw [wp_bind]
  refine wp_takeLock fun lock w₁ => ?_
  rw [wp_bind]
  refine wp_ask fun reply w₂ => ?_
  rw [wp_bind]
  cases reply with
  | error e => trivial
  | ok u =>
      rw [wp_ofReply_ok, wp_bind]
      refine wp_sharedLayout fun layout w₃ _ => ?_
      rw [wp_bind]
      have hstart : Streams.Backed Holdings.none.streams w₃.memory := by
        intro d a ha
        cases d <;> cases ha
      refine wp_mono (wp_forM_each (fun held w => held.streams.Backed w.memory)
        (fun _ _ _ => True) hstart fun held w h d _ => ?_) (fun _ held₁ w₄ h₁ => ?_)
        fun _ _ _ h => h
      · exact wp_mono (makeStream_backed hdev h) (fun _ _ _ h => ⟨h, trivial, fun _ _ => trivial⟩)
          fun _ _ _ h => h
      · refine wp_mono (wp_forM_each (fun held w => held.streams.Backed w.memory)
          (fun _ _ _ => True) h₁.1 fun held w h d _ => ?_) (fun _ _ _ h => h.1) fun _ _ _ h => h
        exact wp_mono (enable_backed hdev h) (fun _ _ _ h => ⟨h, trivial, fun _ _ => trivial⟩)
          fun _ _ _ h => h

end Setup

/-- Slots were handed out with all their bytes. -/
def Journal.FoundWhole (d : Direction) (size : Nat) (j : Journal) : Prop :=
  ∀ bytes ∈ j.found d, bytes.size = size

theorem Journal.FoundWhole.snoc {d : Direction} {size : Nat} {j : Journal} {e : Event}
    (h : j.FoundWhole d size) (he : Journal.found d [e] = []) :
    FoundWhole d size (j ++ [e]) := by
  unfold FoundWhole
  rw [found_append, he, List.append_nil]
  exact h

/-- The ring of a direction is `r` and has its bytes, and its slots were handed out whole. -/
structure Link.Whole {σ : Type} (d : Direction) (r : Ring) (l : Link) (w : World (Recorded σ)) :
    Prop where
  ring : ∀ a, l.streams.get d = some a → a.ring = r
  backed : r.Backed w.memory
  found : w.machine.journal.FoundWhole d r.slotSize

section Run

variable {σ : Type} {dev : Device σ} {config : Config} {t : Transport} {mode : Mode} {j : Journal}
  {x : Standing} {d : Direction} {r : Ring} {s s' : Session} {v v' : World σ}
  {w : World (Recorded σ)}

theorem Link.Whole.setChannel {l : Link} (h : l.Whole d r w) (e : Direction) (c : Channel) :
    Link.Whole d r { l with streams := l.streams.setChannel e c } w where
  ring a ha := by
    change (l.streams.setChannel e c).get d = some a at ha
    rw [Streams.get_setChannel] at ha
    split at ha
    · next heq =>
        subst heq
        obtain ⟨b, hb, rfl⟩ := Option.map_eq_some_iff.mp ha
        exact h.ring b hb
    · exact h.ring a ha
  backed := h.backed
  found := h.found

theorem Device.KeepsLengths.frame (hdev : dev.KeepsLengths) :
    Exchange.FlightFrame dev.recorded (Link.Whole d r) where
  call c l w hc h := by
    have hkeeps : c.givesBack = false := by
      cases c with
      | enableChannel d enable => cases enable <;> first | rfl | cases hc
      | _ => first | rfl | cases hc
    rw [Device.wp_recorded, Act.wp_true_iff]
    intro reply v hreply
    exact ⟨h.ring, h.backed.kept (hdev _ _ _ _ hkeeps hreply), h.found.snoc rfl⟩
  channel _ _ e c h := h.setChannel e c
  note _ _ _ h := ⟨h.ring, h.backed, h.found⟩
  flight _ _ _ h := ⟨h.ring, h.backed, h.found⟩

namespace Session

/-- A session whose ring of a direction is `r` and has its bytes while it is open, and whose slots
were handed out whole. -/
def Whole (d : Direction) (r : Ring) (s : Session) (w : World (Recorded σ)) : Prop :=
  (∀ live, s.live = some live → live.link.Whole d r w) ∧ w.machine.journal.FoundWhole d r.slotSize

theorem parting_whole (size : Nat) :
    dev.recorded.Parting (fun _ _ => True) (fun w => w.machine.journal.FoundWhole d size)
      fun w => w.machine.journal.FoundWhole d size where
  call _ _ _ h := Device.wp_recorded_of fun _ _ hj => hj ▸ h.snoc rfl
  stop _ _ h := Device.wp_recorded_of fun _ _ hj => hj ▸ h.snoc rfl
  close _ h := Device.wp_recorded_of fun _ _ hj => hj ▸ h.snoc rfl
  free _ _ h := h
  note _ _ h := h
  noteClosed _ _ h := h

theorem perform_step_whole (hdev : dev.KeepsLengths) (h : s.Whole d r w) :
    (s.perform dev .step).wp (fun s' => s'.Whole d r) True w := by
  unfold perform
  rw [Act.wp_bind, Act.wp_memory, Act.wp_bind, Act.wp_enter, Act.wp_bind]
  suffices hstep : (s.step dev.recorded).wp (fun out => out.2.Whole d r) True
      (w.enter (.began s.available w.memory)) by
    refine Act.wp_mono hstep fun out w' h' => ?_
    exact ⟨fun live hlive => ⟨(h'.1 live hlive).ring, (h'.1 live hlive).backed, h'.2.snoc rfl⟩,
      h'.2.snoc rfl⟩
  have hfound := h.2.snoc (e := .began s.available w.memory) rfl
  cases hs : s.live with
  | none => exact wp_step_closed hs ⟨fun live hlive => (nomatch hs.symm.trans hlive), hfound⟩
  | some live =>
      have hlink := h.1 live hs
      refine Act.wp_mono (wp_step_of_keeps (J := fun w => w.machine.journal.FoundWhole d r.slotSize)
        hs (Transport.keeps_step hdev.frame _ _) (fun _ _ _ h => ⟨h.ring, h.backed, h.found⟩)
        (fun link stats w' h' => ?_) ⟨hlink.ring, hlink.backed, hfound⟩) fun out w' h' => ?_
      · exact Act.wp_mono (((parting_whole _).leaves _).ends_tearDown h'.found _) fun _ _ h _ => h
      · rcases h' with ⟨link, hopen, hwhole⟩ | ⟨hclosed, hwhole⟩
        · refine ⟨fun live' hlive' => ?_, hwhole.found⟩
          cases hopen.symm.trans hlive'
          exact hwhole
        · exact ⟨fun live' hlive' => (nomatch hclosed.symm.trans hlive'), hwhole⟩

theorem perform_claim_whole {e : Direction} {update : ByteArray → ByteArray}
    (hx : x.link.Sound mode) (halong : s.Along t mode j x w) (h : s.Whole d r w) :
    (s.perform dev (.claim e update)).wp (fun s' => s'.Whole d r) True w := by
  cases hs : s.live with
  | none =>
      refine wp_perform_claim_closed hs ⟨fun live hlive => (nomatch hs.symm.trans hlive), ?_⟩
      exact h.2.snoc rfl
  | some live =>
      have hlink := h.1 live hs
      have hsound := (halong.open hs).2.2.sound hx
      apply wp_perform_claim hs hsound
      · intro _
        refine ⟨fun live' hlive' => ?_, h.2.snoc rfl⟩
        cases hs.symm.trans hlive'
        exact ⟨hlink.ring, hlink.backed, h.2.snoc rfl⟩
      · intro stream offset index found memory hget _ _ hoffset hfound hmemory
        have hlane := hsound e _ (Link.lane_of_stream hget)
        rw [Ring.slotStart_eq_slotOffset hlane.fits] at hoffset
        have hle : offset + stream.ring.slotSize ≤ stream.ring.len :=
          Ring.slotOffset_add_slotSize_le hoffset
        have hwhole : Journal.FoundWhole d r.slotSize (w.machine.journal ++
            [.claimed e stream.ring index found
              (memory.read stream.ring.region offset stream.ring.slotSize)]) := by
          by_cases hd : e = d
          · subst hd
            obtain ⟨b, hb, hlen⟩ := hlink.backed
            rw [hlink.ring stream hget] at hle hfound
            intro bytes hbytes
            rw [Journal.found_append, List.mem_append] at hbytes
            rcases hbytes with hbytes | hbytes
            · exact h.2 bytes hbytes
            · have heq : bytes = found := by simpa [Journal.found] using hbytes
              rw [heq, hfound]
              exact Memory.size_read hb (Nat.le_trans hle hlen)
          · exact h.2.snoc (by simp [Journal.found, hd])
        refine ⟨fun live' hlive' => ?_, hwhole⟩
        cases hlive'
        refine Link.Whole.setChannel ⟨hlink.ring, ?_, hwhole⟩ e _
        exact hmemory ▸ hlink.backed.kept (Memory.keepsLengths_write _ _ _ _)

theorem play_whole (hdev : dev.KeepsLengths) (hx : x.link.Sound mode)
    (halong : s.Along t mode j x w) (h : s.Whole d r w) (actions : List Action) :
    (s.play dev actions).wp (fun s' => s'.Whole d r) True w := by
  refine Act.wp_mono (Act.wp_foldlM
    (fun (s : Session) w => s.Whole d r w ∧ s.Along t mode j x w) ⟨h, halong⟩ ?_) fun _ _ h => h.1
  rintro s w ⟨h, halong⟩ a _
  refine Act.wp_and ?_ (perform_along hx halong a)
  cases a with
  | step => exact perform_step_whole hdev h
  | claim e update => exact perform_claim_whole hx halong h

theorem start_backed (hdev : dev.KeepsLengths) (hstart : start dev config t v = .ok (.ok s) v')
    {a : Stream} (ha : s.stream d = some a) (howned : a.ring.storage = .owned) :
    a.ring.Backed v'.memory := by
  obtain ⟨_, held, w₁, hrun, _, hmemory, hs⟩ := start_eq_ok hstart
  have hbacked := Act.wp_true_iff.mp (Setup.run_backed hdev) _ _ hrun
  rw [stream_of_open hs] at ha
  exact hmemory ▸ hbacked d a ha howned

/-- On a device that keeps the lengths of its regions, all slots are handed out whole. -/
theorem size_found (hdev : dev.KeepsLengths) (hstart : start dev config t v = .ok (.ok s) v')
    {actions : List Action} (hplay : s.play dev actions v'.recorded = .ok s' w) {a : Stream}
    (ha : s.stream d = some a) (hshared : a.ring.isShared = true → a.ring.Backed v'.memory) :
    ∀ bytes ∈ w.machine.journal.found d, bytes.size = a.ring.slotSize := by
  have hbacked : a.ring.Backed v'.memory := by
    cases hstorage : a.ring.storage with
    | owned => exact start_backed hdev hstart ha hstorage
    | mapped => exact hshared (by rw [Ring.isShared, hstorage]; rfl)
  obtain ⟨streams, hfresh, hstream, halong⟩ := start_along hstart
  have hwhole : s.Whole d a.ring v'.recorded := by
    refine ⟨fun live hlive => ⟨fun b hb => ?_, hbacked, fun _ h => nomatch h⟩,
      fun _ h => nomatch h⟩
    rw [stream_of_open hlive, hb] at ha
    cases ha
    rfl
  exact (Act.wp_true_iff.mp (play_whole hdev hfresh.sound halong hwhole actions) s' w hplay).2

end Session

end Run

end DmaStream

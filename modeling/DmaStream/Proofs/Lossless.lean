import DmaStream.Proofs.Copies
import Mathlib.Logic.Function.Basic

/-!
A board as a queue between clients that copy. Main statement: what transfers have delivered is the
start of what transfers have accepted, whichever handles are used and however the calls follow one
another, and the rest is no more than the two rings and the loopback path hold.
-/
namespace DmaStream

/-- The calls of clients that copy. -/
def Call.copies : Call → Bool
  | .read _ => true
  | .write _ => true
  | .submit _ _ => true
  | .waitAny _ _ => true
  | .cancelAll => true
  | .waitReady _ _ => true
  | .enableChannel _ enable => enable
  | _ => false

/-- The buffer that is handed over with a call. -/
def Call.buffer : Call → Option Span
  | .read buf => some buf
  | .write buf => some buf
  | .submit _ buf => some buf
  | _ => none

/-- A transfer that a client has been told of. -/
structure Haul where
  direction : Direction
  buf : Span
  moved : Nat
  bytes : List UInt8

/-- What the clients of a board know: the buffers of each handle that are in flight, and the
transfers done, oldest first. -/
structure Tally where
  lent : Nat → PerDirection (Option Span)
  hauls : List Haul

namespace Tally

/-- All that was moved in one direction. -/
def bytes (t : Tally) (d : Direction) : List UInt8 :=
  t.hauls.flatMap fun haul => if haul.direction = d then haul.bytes else []

def haul (t : Tally) (d : Direction) (buf : Span) (moved : Nat) (before after : Memory) : Tally :=
  { t with hauls := t.hauls ++ [⟨d, buf, moved, Card.hauled d buf moved before after⟩] }

def lend (t : Tally) (id : Nat) (d : Direction) (buf : Option Span) : Tally :=
  { t with lent := Function.update t.lent id ((t.lent id).set d buf) }

/-- What a client knows after the answer to a call. A report about a buffer that is not in flight
counts as one about an empty buffer. -/
def after (t : Tally) (id : Nat) : (c : Call) → Reply c → Memory → Memory → Tally
  | .read buf, .ok moved, before, after => t.haul .inbound buf moved before after
  | .write buf, .ok moved, before, after => t.haul .outbound buf moved before after
  | .submit d buf, .ok (.completed moved), before, after => t.haul d buf moved before after
  | .submit d buf, .ok .pending, _, _ => t.lend id d (some buf)
  | .waitAny _ _, .ok (some (d, moved)), before, after =>
    (t.lend id d none).haul d (((t.lent id).get d).getD ⟨⟨0⟩, 0⟩) moved before after
  | .cancelAll, _, _, _ => Direction.all.foldl (fun t d => t.lend id d none) t
  | _, _, _, _ => t

/-- What a client does: a call through a handle, or a change to memory. A wait that goes on is one
call after another, since the board is free for others in between. -/
inductive Move where
  | call (id : Nat) (c : Call)
  | touch (region : RegionId) (offset : Nat) (bytes : ByteArray)

/-- The handle is there, and buffers and memory are the client's own. -/
def Move.Proper (w : World Card) : Move → Prop
  | .call id c => (0 < id ∧ id ≤ w.machine.handles.size) ∧ c.copies = true ∧
    ∀ buf, c.buffer = some buf → w.machine.Separate w.memory buf
  | .touch region _ _ => ∀ d, region ≠ w.machine.rings.get d

def perform (t : Tally) : Move → Act Card Tally
  | .call id c => do
    let before ← Act.memory
    let reply ← (Card.device id).answer c
    return t.after id c reply before (← Act.memory)
  | .touch region offset bytes => do
    Act.modifyMemory (·.write region offset bytes)
    return t

def play (t : Tally) (moves : List Move) : Act Card Tally :=
  moves.foldlM perform t

end Tally

namespace Card

variable {c : Card} {m : Memory} {w w' : World Card} {id i : Nat} {d : Direction}
  {buf : Option Span} {content : List UInt8}

/-- Both engines of a board have just started on the loopback path. -/
structure Primed (c : Card) (m : Memory) : Prop where
  mounted : c.Mounted m
  slotSize_pos : 0 < c.shape.slotSize
  slotCount_pos : 0 < c.shape.slotCount
  loopback : c.loopback = true
  calm : c.mishaps = []
  running : ∀ d, (c.engines.get d).enabled = true
  counts : ∀ d, (c.engines.get d).counts = ⟨0, 0⟩
  fifo : c.fifo = []

theorem wp_enable_primed {e : Direction} {F : Prop} (hne : e ≠ d)
    (hmounted : w.machine.Mounted w.memory) (hsize : 0 < w.machine.shape.slotSize)
    (hcount : 0 < w.machine.shape.slotCount) (hloopback : w.machine.loopback = true)
    (hcalm : w.machine.mishaps = []) (hidle : ∀ d, (w.machine.engines.get d).enabled = false) :
    Act.wp (do
      let _ ← enableChannel d true
      enableChannel e true) (fun _ w' => w'.machine.Primed w'.memory) F w := by
  have hstill : Still w.machine w.machine :=
    ⟨rfl, rfl, rfl, hcalm, fun d hd => absurd hd (ne_true_of_eq_false (hidle d))⟩
  rw [Act.wp_bind]
  refine Act.wp_mono (wp_enableChannel_still hsize hstill) fun _ w₁ h₁ => ?_
  obtain ⟨hstill₁, hmemory₁, _, hfirst, _⟩ := h₁
  refine Act.wp_mono (wp_enableChannel_still hsize hstill₁) fun _ w₂ h₂ => ?_
  obtain ⟨hstill₂, hmemory₂, hfifo, hsecond, hothers⟩ := h₂
  have hrunning : ∀ f, (w₂.machine.engines.get f).enabled = true := by
    intro f
    by_cases heq : f = e
    · exact heq ▸ hsecond
    · obtain rfl : f = d := by cases d <;> cases e <;> cases f <;> simp_all
      exact hothers f hfirst
  refine ⟨?_, ?_, ?_, ?_, hstill₂.calm, hrunning, fun f => (hstill₂.unmoved f (hrunning f)).1,
    hfifo⟩
  · rw [hmemory₂, hmemory₁]
    exact hmounted.of_same hstill₂.rings hstill₂.shape
  · rw [hstill₂.shape]
    exact hsize
  · rw [hstill₂.shape]
    exact hcount
  · rw [hstill₂.loopback]
    exact hloopback

theorem Primed.piping (h : w.machine.Primed w.memory) : Piping [] w := by
  have hstill : Still w.machine w.machine :=
    ⟨rfl, rfl, rfl, h.calm, fun d _ => ⟨h.counts d, h.fifo⟩⟩
  have hlooping := hstill.looping h.mounted h.slotSize_pos h.slotCount_pos h.loopback h.running
  have hinbound : w.machine.engines.inbound.swCount = 0 :=
    congrArg Counts.swCount (h.counts .inbound)
  have houtbound : w.machine.engines.outbound.swCount = 0 :=
    congrArg Counts.swCount (h.counts .outbound)
  refine ⟨⟨[], rfl, ?_⟩, ?_, ?_⟩
  · rw [hinbound, houtbound]
    exact hlooping
  · rw [h.fifo]
    exact Nat.zero_le _
  · rw [houtbound]
    exact Nat.zero_le _

theorem inFlight_congr {c' : Card} (h : c'.handles = c.handles) (id : Nat) :
    c'.inFlight id = c.inFlight id := by
  unfold inFlight
  rw [h]

theorem inFlight_of_idle (h : ∀ handle ∈ c.handles, handle.inFlight = .both none) (id : Nat) :
    c.inFlight id = .both none := by
  unfold inFlight
  split
  · next handle hhandle => exact h handle (Array.mem_of_getElem? hhandle)
  · rfl

theorem inFlight_setInFlight (hid : 0 < id) (hsize : id ≤ c.handles.size) (hi : 0 < i) :
    (c.setInFlight id d buf).inFlight i =
      if i = id then (c.inFlight id).set d buf else c.inFlight i := by
  unfold inFlight setInFlight
  dsimp only
  rw [Array.getElem?_modify]
  by_cases heq : i = id
  · subst heq
    rw [if_pos rfl, if_pos rfl, Array.getElem?_eq_getElem (by omega)]
    rfl
  · rw [if_neg (by omega), if_neg heq]

theorem Piping.setInFlight (h : Piping content w) (id : Nat) (d : Direction) (buf : Option Span) :
    Piping content { w with machine := w.machine.setInFlight id d buf } := by
  obtain ⟨stock, hcontent, hlooping⟩ := h.path
  exact ⟨⟨stock, hcontent, { hlooping with mounted := hlooping.mounted.of_same rfl rfl }⟩,
    h.fifo_le, h.room⟩

theorem Piping.touch (h : Piping content w) {region : RegionId}
    (hregion : ∀ d, region ≠ w.machine.rings.get d) (offset : Nat) (bytes : ByteArray) :
    Piping content { w with memory := w.memory.write region offset bytes } := by
  obtain ⟨stock, hcontent, hlooping⟩ := h.path
  refine ⟨⟨stock, hcontent, hlooping.of_rings fun d => ?_⟩, h.fifo_le, h.room⟩
  exact Memory.bytes?_write_of_ne (hregion d).symm _ _ _

end Card

namespace Tally

variable {t : Tally} {w₀ w w' : World Card} {id i : Nat} {d e : Direction} {buf : Option Span}

theorem bytes_haul (t : Tally) (d e : Direction) (span : Span) (moved : Nat)
    (before after : Memory) : (t.haul d span moved before after).bytes e =
      t.bytes e ++ if d = e then Card.hauled d span moved before after else [] := by
  unfold bytes haul
  rw [List.flatMap_append, List.flatMap_singleton]

theorem lend_lent (t : Tally) (id i : Nat) (d : Direction) (buf : Option Span) :
    (t.lend id d buf).lent i = if i = id then (t.lent id).set d buf else t.lent i :=
  Function.update_apply _ _ _ _

theorem lend_none (h : (t.lent id).get d = none) : t.lend id d none = t := by
  have hsame : (t.lent id).set d none = t.lent id := by
    refine PerDirection.ext_get fun e => ?_
    rw [PerDirection.get_set]
    split
    · next heq => rw [heq, h]
    · rfl
  unfold lend
  rw [hsame, Function.update_eq_self]

/-- The tally of the clients agrees with the board, which was in the world `w₀` at first. -/
structure Balanced (w₀ : World Card) (t : Tally) (w : World Card) : Prop where
  steady : Card.Steady w₀ w
  size : w.machine.handles.size = w₀.machine.handles.size
  lent : ∀ id, 0 < id → id ≤ w₀.machine.handles.size → w.machine.inFlight id = t.lent id
  separate : ∀ id d buf, (t.lent id).get d = some buf → w₀.machine.Separate w₀.memory buf
  balance : ∃ content, Card.Piping content w ∧ t.bytes .outbound = t.bytes .inbound ++ content
  sound : ∀ haul ∈ t.hauls, w₀.machine.shape.slotSize ∣ haul.moved ∧
    haul.moved ≤ haul.buf.len ∧ haul.bytes.length = haul.moved

namespace Balanced

theorem of_steady {content : List UInt8} (h : Balanced w₀ t w) (hsteady : Card.Steady w w')
    (hhandles : w'.machine.handles = w.machine.handles) (hcontent : Card.Piping content w')
    (hbalance : t.bytes .outbound = t.bytes .inbound ++ content) : Balanced w₀ t w' := by
  refine ⟨h.steady.trans hsteady, by rw [hhandles, h.size], fun id hid hsize => ?_, h.separate,
    ⟨content, hcontent, hbalance⟩, h.sound⟩
  rw [Card.inFlight_congr hhandles]
  exact h.lent id hid hsize

theorem tick (h : Balanced w₀ t w) : Balanced w₀ t (Card.ticked w) := by
  obtain ⟨content, hcontent, hbalance⟩ := h.balance
  exact h.of_steady (.of_ticked w) rfl hcontent.tick hbalance

theorem note (h : Balanced w₀ t w) (log : Array LogEvent) : Balanced w₀ t { w with log } := by
  obtain ⟨content, hcontent, hbalance⟩ := h.balance
  exact h.of_steady ⟨rfl, rfl, fun _ => rfl⟩ rfl
    ⟨hcontent.path, hcontent.fifo_le, hcontent.room⟩ hbalance

theorem touch (h : Balanced w₀ t w) {region : RegionId}
    (hregion : ∀ d, region ≠ w₀.machine.rings.get d) (offset : Nat) (bytes : ByteArray) :
    Balanced w₀ t { w with memory := w.memory.write region offset bytes } := by
  obtain ⟨content, hcontent, hbalance⟩ := h.balance
  have hrings : ∀ d, region ≠ w.machine.rings.get d := fun d => h.steady.rings ▸ hregion d
  exact h.of_steady ⟨rfl, rfl, Memory.sameExtent_write _ _ _ _⟩ rfl
    (hcontent.touch hrings offset bytes) hbalance

theorem lend (h : Balanced w₀ t w) (hid : 0 < id) (hsize : id ≤ w₀.machine.handles.size)
    (hbuf : ∀ b, buf = some b → w₀.machine.Separate w₀.memory b) :
    Balanced w₀ (t.lend id d buf) { w with machine := w.machine.setInFlight id d buf } := by
  obtain ⟨content, hcontent, hbalance⟩ := h.balance
  refine ⟨⟨h.steady.shape, h.steady.rings, h.steady.extent⟩, ?_, fun i hi hle => ?_,
    fun i e b hb => ?_, ⟨content, hcontent.setInFlight id d buf, hbalance⟩, h.sound⟩
  · exact (Array.size_modify ..).trans h.size
  · rw [Card.inFlight_setInFlight hid (h.size ▸ hsize) hi, lend_lent, h.lent id hid hsize]
    split
    · rfl
    · exact h.lent i hi hle
  · rw [lend_lent] at hb
    split at hb
    · rw [PerDirection.get_set] at hb
      split at hb
      · exact hbuf b hb
      · exact h.separate id e b hb
    · exact h.separate i e b hb

theorem haul {span : Span} {content : List UInt8} {moved : Nat} (h : Balanced w₀ t w)
    (hspan : w₀.machine.Separate w₀.memory span)
    (hbalance : t.bytes .outbound = t.bytes .inbound ++ content)
    (hmoved : Card.Transferred d span content w moved w') :
    Balanced w₀ (t.haul d span moved w.memory w'.memory) w' := by
  obtain ⟨content', hpiping, hcarried⟩ := hmoved.carried
  refine ⟨h.steady.trans hmoved.steady, by rw [hmoved.handles, h.size], fun id hid hsize => ?_,
    h.separate, ⟨content', hpiping, ?_⟩, fun haul hhaul => ?_⟩
  · rw [Card.inFlight_congr hmoved.handles]
    exact h.lent id hid hsize
  · rw [bytes_haul, bytes_haul]
    cases d with
    | inbound =>
        change t.bytes .outbound ++ [] = t.bytes .inbound ++ _ ++ content'
        rw [List.append_nil, hbalance, List.append_assoc]
        exact congrArg _ hcarried
    | outbound =>
        change t.bytes .outbound ++ _ = t.bytes .inbound ++ [] ++ content'
        rw [List.append_nil, hbalance, List.append_assoc]
        exact congrArg _ hcarried.symm
  · rcases List.mem_append.mp hhaul with hold | hnew
    · exact h.sound haul hold
    · cases List.mem_singleton.mp hnew
      have hsep := h.steady.separate hspan
      refine ⟨h.steady.shape ▸ hmoved.whole, hmoved.moved_le, ?_⟩
      -- The buffer is read after an inbound transfer and before an outbound one.
      cases d with
      | inbound => exact (hmoved.steady.separate hsep).length_read hmoved.moved_le
      | outbound => exact hsep.length_read hmoved.moved_le

theorem wp_transfer {span : Span} {F : Prop} (h : Balanced w₀ t w)
    (hspan : w₀.machine.Separate w₀.memory span) :
    (Card.transfer d span).wp (fun moved w' =>
      Balanced w₀ (t.haul d span moved w.memory w'.memory) w' ∧
        (moved = 0 → Balanced w₀ t w' ∧ ∀ r, (∀ e, r ≠ w₀.machine.rings.get e) →
          w'.memory.bytes? r = w.memory.bytes? r)) F w := by
  obtain ⟨content, hcontent, hbalance⟩ := h.balance
  have hsep := h.steady.separate hspan
  refine Act.wp_mono (Card.wp_transfer_piping hcontent hsep)
    fun moved w' hmoved => ⟨h.haul hspan hbalance hmoved, ?_⟩
  rintro rfl
  exact ⟨h.of_steady hmoved.steady hmoved.handles (hmoved.of_zero hsep) hbalance,
    fun r hr => hmoved.idle rfl r fun e => h.steady.rings ▸ hr e⟩

theorem wp_submit {span : Span} {F : Prop} (h : Balanced w₀ t w) (hid : 0 < id)
    (hsize : id ≤ w₀.machine.handles.size) (hspan : w₀.machine.Separate w₀.memory span) :
    (Card.submit id d span).wp (fun reply w' =>
      Balanced w₀ (t.after id (.submit d span) reply w.memory w'.memory) w') F w := by
  obtain ⟨content, hcontent, _⟩ := h.balance
  unfold Card.submit
  rw [Act.wp_bind, Card.wp_strike_calm hcontent.calm]
  dsimp only [Option.isSome_none]
  rw [if_neg Bool.false_ne_true, Act.wp_bind, Act.wp_get]
  split
  · exact h
  · rw [Act.wp_bind]
    refine Act.wp_mono (h.wp_transfer hspan) fun moved w' ⟨hmoved, hnone⟩ => ?_
    split
    · exact hmoved
    · have hlast := (hnone (by omega)).1
      exact hlast.lend hid hsize fun b hb => Option.some.inj hb ▸ hspan

/-- A wait may try several transfers. Until one of them moves something all buffers are as they were
when it began, so what it moves was there to be moved. -/
theorem wp_finishAny {before : Memory} {F : Prop} (hid : 0 < id)
    (hsize : id ≤ w₀.machine.handles.size) (pending : Directions) (timeout : Nat)
    (ds : List Direction) (h : Balanced w₀ t w)
    (hbefore : ∀ r, (∀ e, r ≠ w₀.machine.rings.get e) → w.memory.bytes? r = before.bytes? r) :
    (Card.finishAny id ds).wp (fun report w' =>
      Balanced w₀ (t.after id (.waitAny pending timeout) (.ok report) before w'.memory) w') F
      w := by
  refine Act.wp_mono (Card.wp_finishAny
    (I := fun v => Balanced w₀ t v ∧
      ∀ r, (∀ e, r ≠ w₀.machine.rings.get e) → v.memory.bytes? r = before.bytes? r)
    (Q := fun d moved w' => Balanced w₀
      (t.after id (.waitAny pending timeout) (.ok (some (d, moved))) before w'.memory) w')
    ⟨h, hbefore⟩ ?_) ?_
  · rintro d - span w ⟨h, hbefore⟩ hspan
    rw [h.lent id hid hsize] at hspan
    have hsep := h.separate id d span hspan
    refine Act.wp_mono (h.wp_transfer hsep) fun moved w' ⟨hmoved, hnone⟩ => ?_
    split
    · have hsame : t.after id (.waitAny pending timeout) (.ok (some (d, moved))) before
          w'.memory = (t.haul d span moved w.memory w'.memory).lend id d none := by
        unfold Tally.after
        dsimp only
        rw [hspan]
        unfold Tally.haul
        rw [Card.hauled_congr (hbefore span.region hsep.region_ne)]
        rfl
      have hback : Balanced w₀ ((t.haul d span moved w.memory w'.memory).lend id d none)
          { w' with machine := w'.machine.setInFlight id d none } :=
        hmoved.lend hid hsize fun b hb => nomatch hb
      rw [← hsame] at hback
      exact hback
    · obtain ⟨hstill, hbytes⟩ := hnone (by omega)
      exact ⟨hstill, fun r hr => (hbytes r hr).trans (hbefore r hr)⟩
  · rintro (_ | ⟨d, moved⟩) w' h
    · exact h.1
    · exact h.2

theorem wp_cancelTransfers {F : Prop} (h : Balanced w₀ t w) (hid : 0 < id)
    (hsize : id ≤ w₀.machine.handles.size) :
    (Card.cancelTransfers id).wp
      (fun _ => Balanced w₀ (Direction.all.foldl (fun t d => t.lend id d none) t)) F w := by
  have hone : ∀ t w, Balanced w₀ t w → ∀ d,
      Act.wp (do
        if (((← get).machine.inFlight id).get d).isSome then
          Card.onCard (·.setInFlight id d none)
          Act.note (.transferCancelled d)) (fun _ => Balanced w₀ (t.lend id d none)) F w := by
    intro t w h d
    have hback : Balanced w₀ (t.lend id d none)
        { w with machine := w.machine.setInFlight id d none } :=
      h.lend hid hsize fun b hb => nomatch hb
    rw [Act.wp_bind, Act.wp_get]
    split
    · exact hback.note _
    · next hnone =>
        have hget : (t.lent id).get d = none := by
          rw [← h.lent id hid hsize]
          exact Option.not_isSome_iff_eq_none.mp hnone
        rw [lend_none hget]
        exact h
  exact Act.wp_forM_done (fun done => Balanced w₀ (done.foldl (fun t d => t.lend id d none) t)) h
    fun done w h d _ => by
      rw [List.foldl_append]
      exact hone _ w h d

/-- Whatever is answered to a call of a client that copies, the clients can go on from there. -/
theorem wp_answer {c : Call} {F : Prop} (h : Balanced w₀ t w) (hid : 0 < id)
    (hsize : id ≤ w₀.machine.handles.size) (hcopies : c.copies = true)
    (hbuf : ∀ buf, c.buffer = some buf → w₀.machine.Separate w₀.memory buf) :
    ((Card.device id).answer c).wp (fun reply w' =>
      Balanced w₀ (t.after id c reply w.memory w'.memory) w') F w := by
  obtain ⟨content, hcontent, _⟩ := h.balance
  cases c with
  | read buf =>
      change Act.wp (Card.transfer .inbound buf >>= _) _ F w
      rw [Act.wp_bind]
      exact Act.wp_mono (h.wp_transfer (hbuf buf rfl)) fun moved w' h' => h'.1
  | write buf =>
      change Act.wp (Card.transfer .outbound buf >>= _) _ F w
      rw [Act.wp_bind]
      exact Act.wp_mono (h.wp_transfer (hbuf buf rfl)) fun moved w' h' => h'.1
  | submit d buf => exact h.wp_submit hid hsize (hbuf buf rfl)
  | waitAny pending timeout =>
      change Act.wp (Card.finishAny id pending.toList >>= _) _ F w
      rw [Act.wp_bind]
      exact wp_finishAny hid hsize pending timeout _ h fun _ _ => rfl
  | cancelAll => exact h.wp_cancelTransfers hid hsize
  | waitReady interest timeout =>
      change Act.wp (Card.tick >>= _) _ F w
      rw [Act.wp_bind, Card.wp_tick hcontent.slotSize_pos]
      exact h.tick
  | enableChannel d enable =>
      obtain rfl : enable = true := hcopies
      change (Card.enableChannel d true).wp _ F w
      rw [Card.wp_enableChannel_running hcontent.calm hcontent.slotSize_pos (hcontent.running d)]
      exact h.tick
  | _ => cases hcopies

theorem wp_perform {F : Prop} (h : Balanced w₀ t w) {move : Move} (hmove : move.Proper w₀) :
    (t.perform move).wp (Balanced w₀) F w := by
  cases move with
  | call id c =>
      obtain ⟨⟨hid, hsize⟩, hcopies, hbuf⟩ := hmove
      unfold perform
      rw [Act.wp_bind, Act.wp_memory, Act.wp_bind]
      exact Act.wp_mono (h.wp_answer hid hsize hcopies hbuf) fun _ _ h' => h'
  | touch region offset bytes => exact h.touch hmove offset bytes

end Balanced

/-- A board is a lossless queue for clients that copy: what they have received is the start of what
they have sent, and the rest fits into the rings and the loopback path. Each transfer moves a whole
number of slots, and no more than its buffer holds. -/
theorem lossless {w : World Card} (h : w.machine.Primed w.memory)
    (hlent : ∀ id d buf, (w.machine.inFlight id).get d = some buf →
      w.machine.Separate w.memory buf)
    (moves : List Move) (hmoves : ∀ move ∈ moves, move.Proper w) :
    ∃ t w', play ⟨w.machine.inFlight, []⟩ moves w = .ok t w' ∧
      t.bytes .inbound <+: t.bytes .outbound ∧
      (t.bytes .outbound).length ≤ (t.bytes .inbound).length +
        3 * w.machine.shape.slotCount * w.machine.shape.slotSize ∧
      ∀ haul ∈ t.hauls, w.machine.shape.slotSize ∣ haul.moved ∧ haul.moved ≤ haul.buf.len ∧
        haul.bytes.length = haul.moved := by
  have hstart : Balanced w ⟨w.machine.inFlight, []⟩ w :=
    ⟨.refl w, rfl, fun _ _ _ => rfl, hlent, ⟨[], h.piping, rfl⟩, fun _ hhaul => nomatch hhaul⟩
  have hruns : (play ⟨w.machine.inFlight, []⟩ moves).wp (Balanced w) False w :=
    Act.wp_foldlM (Balanced w) hstart fun t w' h' move hmem => h'.wp_perform (hmoves move hmem)
  obtain ⟨t, w', hplay, hlast⟩ := Act.wp_false_iff.mp hruns
  obtain ⟨content, hcontent, hbalance⟩ := hlast.balance
  have hlength := hcontent.length_le
  rw [hlast.steady.shape] at hlength
  refine ⟨t, w', hplay, ?_, ?_, hlast.sound⟩
  · rw [hbalance]
    exact List.prefix_append _ _
  · rw [hbalance, List.length_append]
    exact Nat.add_le_add_left hlength _

/-- A board with two handles that has just started on the loopback path, a buffer of eight bytes and
one of sixteen. -/
def loopbackBoard : World Card :=
  ⟨⟨⟨8, 2, 1⟩, true, .both ⟨true, 0, 0, none⟩, ⟨⟨0⟩, ⟨1⟩⟩, [],
      #[⟨true, .both none⟩, ⟨true, .both none⟩], []⟩,
    .ofRegions #[some (Bytes.zeros 16), some (Bytes.zeros 16), some (Bytes.replicate 8 7),
      some (Bytes.zeros 16)], #[]⟩

/-- The second handle asks for bytes before the first one writes some. -/
def relayMoves : List Move :=
  [.call 2 (.submit .inbound ⟨⟨3⟩, 16⟩), .call 1 (.write ⟨⟨2⟩, 8⟩), .call 2 (.waitAny .all 0)]

theorem lossless_board : ∃ t w',
    play ⟨loopbackBoard.machine.inFlight, []⟩ relayMoves loopbackBoard = .ok t w' ∧
      t.bytes .inbound = List.replicate 8 7 ∧ t.bytes .inbound <+: t.bytes .outbound := by
  have hprimed : loopbackBoard.machine.Primed loopbackBoard.memory :=
    ⟨⟨by decide, fun d => by cases d <;> exact ⟨_, rfl, rfl⟩⟩, by decide, by decide, rfl, rfl,
      fun d => by cases d <;> rfl, fun d => by cases d <;> rfl, rfl⟩
  have hidle : ∀ id d buf, (loopbackBoard.machine.inFlight id).get d ≠ some buf := by
    intro id d buf
    rw [Card.inFlight_of_idle (by decide), PerDirection.get_both]
    exact fun heq => nomatch heq
  have hmoves : ∀ move ∈ relayMoves, move.Proper loopbackBoard := by
    intro move hmem
    simp only [relayMoves, List.mem_cons, List.not_mem_nil, or_false] at hmem
    obtain rfl | rfl | rfl := hmem
    · refine ⟨by decide, rfl, fun buf hbuf => ?_⟩
      cases hbuf
      exact ⟨fun d => by cases d <;> decide, _, rfl, by decide⟩
    · refine ⟨by decide, rfl, fun buf hbuf => ?_⟩
      cases hbuf
      exact ⟨fun d => by cases d <;> decide, _, rfl, by decide⟩
    · exact ⟨by decide, rfl, fun buf hbuf => nomatch hbuf⟩
  have hrun : (play ⟨loopbackBoard.machine.inFlight, []⟩ relayMoves).wp
      (fun t _ => t.bytes .inbound = List.replicate 8 7) False loopbackBoard := by
    decide +kernel
  obtain ⟨t, w', hplay, hbytes⟩ := Act.wp_false_iff.mp hrun
  obtain ⟨t', w'', hplay', hpre, _⟩ := lossless hprimed
    (fun id d buf hbuf => absurd hbuf (hidle id d buf)) relayMoves hmoves
  cases hplay.symm.trans hplay'
  exact ⟨t, w', hplay, hbytes, hpre⟩

end Tally

end DmaStream

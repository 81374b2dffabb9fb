import Calendarizador.Source.Policy
import Calendarizador.Source.SleepSteps

/-!
# The sleep queue between interrupts

As long as nobody else touches `wait_list` while a thread is between its `list_begin` and
the last write of its `list_insert`, the pointers hold a sorted list of exactly the
threads that wait for their wake-up, and an insertion that is under way has a valid place.
The list changes as under atomic operations: by `list_insert_ordered` at the third write
of an insertion, and by taking the front away in the handler.
-/
namespace Calendarizador.Source
open Foundation Function List

/-- Between `list_begin` and the last write of `list_insert`. -/
def SleepPc.inside : SleepPc → Bool
  | .testing _ | .advancing _ | .elemPrev _ | .elemNext _ | .prevNext _ | .beforePrev _ => true
  | _ => false

/-- Inside `timer_sleep`, before the write that links the thread. -/
def SleepPc.approaching : SleepPc → Bool
  | .storing _ | .entering | .testing _ | .advancing _ | .elemPrev _ | .elemNext _ | .prevNext _ =>
    true
  | _ => false

namespace Sleeping

/-- Steps on `wait_list` are taken only while no other thread is inside an insertion. -/
def Undisturbed (s : Sleeping) : SleepEvent → Prop
  | .run p => s.pc p = .entering ∨ (s.pc p).inside = true → ∀ q, q ≠ p → (s.pc q).inside = false
  | .wake => ∀ q, (s.pc q).inside = false
  | _ => True

/-- The last call was upped once, and not too early. -/
def OnTime (s : Sleeping) (p : Page) : Prop :=
  ∃ tick, s.received p = [tick] ∧ s.wakeupTime p ≤ tick

/-- No up since the call began. -/
def Quiet (s : Sleeping) (p : Page) : Prop := s.value p = 0 ∧ s.received p = []

/-- The threads in front of a place do not wake up after `p`. -/
structure Place (s : Sleeping) (p : Page) (list : List Page) (before : Node Page)
    (front back : List Page) : Prop where
  split : list = front ++ back
  node : before = startCell () back
  earlier : ∀ q ∈ front, s.wakeupTime q ≤ s.wakeupTime p

/-- The place of `p` in the queue. -/
def Slot (s : Sleeping) (p : Page) (list : List Page) (before : Node Page) : Prop :=
  ∃ front back, s.Place p list before front back ∧
    ∀ q ∈ back.head?, s.wakeupTime p < s.wakeupTime q

/-- The semaphore of a thread at each statement. -/
def PcOk (s : Sleeping) (p : Page) : Prop :=
  match s.pc p with
  | .user => s.value p = 0 ∧ (s.calls p = 0 → s.received p = []) ∧ (s.calls p ≠ 0 → s.OnTime p)
  | .downing => s.Quiet p ∨ (s.value p = 1 ∧ s.OnTime p)
  | _ => s.Quiet p

/-- The queue, and what the search and the writes of `a` have made of it. -/
def Held (s : Sleeping) (list : List Page) (a : Page) : SleepPc → Prop
  | .testing e => Linked s.links list ∧ ∃ front back, s.Place a list e front back
  | .advancing e => Linked s.links list ∧ ∃ front q back, e = .elem q ∧
      s.Place a list (startCell () back) (front ++ [q]) back
  | .elemPrev before => Linked s.links list ∧ s.Slot a list before
  | .elemNext before => Linked s.links list ∧ s.Slot a list before ∧
      s.links.prev (.elem a) = s.links.prev before
  | .prevNext before => Linked s.links list ∧ s.Slot a list before ∧
      s.links.prev (.elem a) = s.links.prev before ∧ s.links.next (.elem a) = some before
  -- all is done but the last write
  | .beforePrev before => Linked (s.links.setPrev before (some (.elem a))) list
  | _ => Linked s.links list

/-- The thread is linked and waits for its up. -/
def Queued (s : Sleeping) (p : Page) : Prop :=
  ((∃ before, s.pc p = .beforePrev before) ∨ s.pc p = .downing ∨ s.pc p = .waiting) ∧
    s.received p = []

/-- The pointers hold `list`, and nobody but `a` is inside an insertion. -/
structure Ok (s : Sleeping) (list : List Page) (a : Page) : Prop where
  alone : ∀ q, q ≠ a → (s.pc q).inside = false
  held : s.Held list a (s.pc a)
  sorted : list.Pairwise fun a b => s.wakeupTime a ≤ s.wakeupTime b
  member : ∀ p, p ∈ list ↔ s.Queued p
  called : ∀ p, s.pc p ≠ .user → s.calls p ≠ 0
  threads : ∀ p, s.PcOk p

/-- Nothing that belongs to the thread `p` changed, its pointers aside. -/
structure SameAt (s after : Sleeping) (p : Page) : Prop where
  pc : after.pc p = s.pc p
  value : after.value p = s.value p
  calls : after.calls p = s.calls p
  received : after.received p = s.received p
  wakeupTime : after.wakeupTime p = s.wakeupTime p

section
variable {s after : Sleeping} {list : List Page} {a p : Page} {before : Node Page} {c : SleepPc}

theorem SameAt.queued (same : SameAt s after p) : after.Queued p ↔ s.Queued p := by
  rw [Queued, Queued, same.pc, same.received]

theorem SameAt.quiet (same : SameAt s after p) : after.Quiet p ↔ s.Quiet p := by
  rw [Quiet, Quiet, same.value, same.received]

theorem SameAt.onTime (same : SameAt s after p) : after.OnTime p ↔ s.OnTime p := by
  rw [OnTime, OnTime, same.received, same.wakeupTime]

theorem Quiet.pcOk (h : s.Quiet p) (busy : s.pc p ≠ .user) : s.PcOk p := by
  unfold PcOk
  cases pc : s.pc p with
  | user => exact absurd pc busy
  | downing => exact .inl h
  | _ => exact h

theorem PcOk.quiet (h : s.PcOk p) (busy : s.pc p ≠ .user) (upped : s.pc p ≠ .downing) :
    s.Quiet p := by
  unfold PcOk at h
  cases pc : s.pc p with
  | user => exact absurd pc busy
  | downing => exact absurd pc upped
  | _ =>
    rw [pc] at h
    exact h

theorem PcOk.same (h : s.PcOk p) (same : SameAt s after p) : after.PcOk p := by
  unfold PcOk at h ⊢
  rw [same.pc]
  cases pc : s.pc p with
  | user =>
    rw [pc] at h
    simpa only [same.value, same.calls, same.received, same.onTime] using h
  | downing =>
    rw [pc] at h
    simpa only [same.quiet, same.value, same.onTime] using h
  | _ =>
    rw [pc] at h
    exact same.quiet.mpr h

theorem Place.frame {front back : List Page}
    (h : s.Place p list before front back) (mine : after.wakeupTime p = s.wakeupTime p)
    (wakeup : ∀ q ∈ list, after.wakeupTime q = s.wakeupTime q) :
    after.Place p list before front back := by
  refine ⟨h.split, h.node, fun q member => ?_⟩
  rw [mine, wakeup q (h.split ▸ mem_append_left back member)]
  exact h.earlier q member

theorem Slot.frame (h : s.Slot p list before) (mine : after.wakeupTime p = s.wakeupTime p)
    (wakeup : ∀ q ∈ list, after.wakeupTime q = s.wakeupTime q) : after.Slot p list before := by
  obtain ⟨front, back, place, later⟩ := h
  refine ⟨front, back, place.frame mine wakeup, fun q first => ?_⟩
  have member : q ∈ list := place.split ▸ mem_append_right front (mem_of_mem_head? first)
  rw [mine, wakeup q member]
  exact later q first

theorem Held.frame (h : s.Held list a c) (links : after.links = s.links)
    (mine : after.wakeupTime a = s.wakeupTime a)
    (wakeup : ∀ q ∈ list, after.wakeupTime q = s.wakeupTime q) : after.Held list a c := by
  unfold Held at h ⊢
  rw [links]
  cases c with
  | testing e =>
    obtain ⟨linked, front, back, place⟩ := h
    exact ⟨linked, front, back, place.frame mine wakeup⟩
  | advancing e =>
    obtain ⟨linked, front, q, back, node, place⟩ := h
    exact ⟨linked, front, q, back, node, place.frame mine wakeup⟩
  | elemPrev before => exact ⟨h.1, h.2.frame mine wakeup⟩
  | elemNext before | prevNext before => exact ⟨h.1, h.2.1.frame mine wakeup, h.2.2⟩
  | _ => exact h

theorem Held.linked (h : s.Held list a c) (settled : ∀ before, c ≠ .beforePrev before) :
    Linked s.links list := by
  cases c with
  | beforePrev before => exact absurd rfl (settled before)
  | testing | advancing | elemPrev | elemNext | prevNext => exact h.1
  | _ => exact h

theorem Held.outside (linked : Linked s.links list) (out : c.inside = false) : s.Held list a c := by
  cases c <;> first | exact linked | cases out

theorem ne_beforePrev (out : c.inside = false) (before : Node Page) : c ≠ .beforePrev before := by
  rintro rfl
  cases out

/-- Anybody may be the one who is inside if nobody else is. -/
theorem Ok.passes (h : s.Ok list a) (alone : ∀ q, q ≠ p → (s.pc q).inside = false) :
    s.Ok list p := by
  by_cases here : a = p
  · exact here ▸ h
  have linked := h.held.linked (ne_beforePrev (alone a here))
  exact ⟨alone, .outside linked (h.alone p (Ne.symm here)), h.sorted, h.member, h.called, h.threads⟩

theorem called_of (h : s.Ok list a) (others : ∀ q, q ≠ p → SameAt s after q)
    (called : after.pc p ≠ .user → after.calls p ≠ 0) (q : Page) (busy : after.pc q ≠ .user) :
    after.calls q ≠ 0 := by
  by_cases here : q = p
  · subst here
    exact called busy
  · rw [(others q here).pc] at busy
    rw [(others q here).calls]
    exact h.called q busy

theorem threads_of (h : s.Ok list a) (others : ∀ q, q ≠ p → SameAt s after q) (ok : after.PcOk p)
    (q : Page) : after.PcOk q := by
  by_cases here : q = p
  · exact here ▸ ok
  · exact (h.threads q).same (others q here)

/-- A step of `p` outside an insertion that changes no pointer and no other thread. -/
theorem Ok.walks (h : s.Ok list a) (links : after.links = s.links)
    (others : ∀ q, q ≠ p → SameAt s after q) (mine : p ∈ list → after.wakeupTime p = s.wakeupTime p)
    (before : (s.pc p).inside = false) (out : (after.pc p).inside = false)
    (queued : after.Queued p ↔ s.Queued p) (called : after.pc p ≠ .user → after.calls p ≠ 0)
    (ok : after.PcOk p) : after.Ok list a := by
  have wakeup : ∀ q ∈ list, after.wakeupTime q = s.wakeupTime q := by
    intro q member
    by_cases here : q = p
    · subst here
      exact mine member
    · exact (others q here).wakeupTime
  refine ⟨fun q other => ?_, ?_, ?_, fun q => ?_, called_of h others called,
    threads_of h others ok⟩
  · by_cases here : q = p
    · rw [here, out]
    · rw [(others q here).pc, h.alone q other]
  · by_cases here : a = p
    · subst here
      exact .outside (links ▸ h.held.linked (ne_beforePrev before)) out
    · rw [(others a here).pc]
      exact h.held.frame links (others a here).wakeupTime wakeup
  · refine h.sorted.imp_of_mem fun {a b} memberA memberB order => ?_
    rwa [wakeup a memberA, wakeup b memberB]
  · rw [h.member q]
    by_cases here : q = p
    · subst here
      exact queued.symm
    · exact (others q here).queued.symm

/-- A step of the thread that is inside an insertion: only the list and `p` itself have to be
looked at. -/
theorem Ok.changes (h : s.Ok list p) {changed : List Page} (others : ∀ q, q ≠ p → SameAt s after q)
    (held : after.Held changed p (after.pc p))
    (sorted : changed.Pairwise fun a b => after.wakeupTime a ≤ after.wakeupTime b)
    (rest : ∀ q, q ≠ p → (q ∈ changed ↔ q ∈ list)) (mine : p ∈ changed ↔ after.Queued p)
    (called : after.pc p ≠ .user → after.calls p ≠ 0) (ok : after.PcOk p) :
    after.Ok changed p := by
  refine ⟨fun q other => ?_, held, sorted, fun q => ?_, called_of h others called,
    threads_of h others ok⟩
  · rw [(others q other).pc]
    exact h.alone q other
  · by_cases here : q = p
    · subst here
      exact mine
    · rw [rest q here, h.member q, (others q here).queued]

theorem goto_same {q : Page} (other : q ≠ p) (c : SleepPc) : SameAt s (s.goto p c) q :=
  ⟨by simp [other], rfl, rfl, rfl, rfl⟩

theorem setLinks_same (l : Links Page) (q : Page) : SameAt s (s.setLinks l) q :=
  ⟨rfl, rfl, rfl, rfl, rfl⟩

theorem SameAt.trans {middle : Sleeping} (first : SameAt s middle p)
    (second : SameAt middle after p) : SameAt s after p :=
  ⟨second.pc.trans first.pc, second.value.trans first.value, second.calls.trans first.calls,
    second.received.trans first.received, second.wakeupTime.trans first.wakeupTime⟩

/-- The effect of a step on the queue, which is that of an atomic operation. -/
def QueueStep (s : Sleeping) (list changed : List Page) : Prop :=
  changed = list ∨ (∃ p, changed = listInsertOrdered s.wakeupCmp p list) ∨
    ∃ q, list = q :: changed

/-- A thread that is not linked yet is not on the list. -/
theorem Ok.absent (h : s.Ok list a) (ahead : (s.pc p).approaching = true) : p ∉ list := by
  rw [h.member]
  rintro ⟨⟨b, pc⟩ | pc | pc, _⟩ <;> rw [pc] at ahead <;> cases ahead

theorem Ok.quiet (h : s.Ok list a) (ahead : (s.pc p).approaching = true) : s.Quiet p := by
  refine (h.threads p).quiet ?_ ?_ <;> intro pc <;> rw [pc] at ahead <;> cases ahead

theorem Ok.stores (h : s.Ok list a) {wakeup : Int} (pc : s.pc p = .storing wakeup) :
    ∃ after, s.runThread p = .ok after ∧ after.Ok list a := by
  have ahead : (s.pc p).approaching = true := by rw [pc]; rfl
  have quiet := h.quiet ahead
  refine ⟨{ s with wakeupTime := update s.wakeupTime p wakeup }.goto p .entering,
    by simp only [runThread, pc], h.walks (p := p) rfl (fun q other => ?_)
    (fun member => absurd member (h.absent ahead)) (by rw [pc]; rfl) (by simp [SleepPc.inside]) ?_
    (fun _ => h.called p (by simp [pc])) (Quiet.pcOk quiet (by simp))⟩
  · exact ⟨by simp [other], rfl, rfl, rfl, by simp [other]⟩
  · simp [Queued, pc]

/-- A step that writes at most the pointers of `p` itself, which is not linked yet. -/
theorem Ok.prepares (h : s.Ok list p) (ahead : (s.pc p).approaching = true) {l : Links Page}
    (still : c.approaching = true) (held : ((s.setLinks l).goto p c).Held list p c) :
    ((s.setLinks l).goto p c).Ok list p := by
  have absent := h.absent ahead
  have busy : c ≠ .user := by
    rintro rfl
    cases still
  refine h.changes (fun q other => (setLinks_same l q).trans (goto_same other c))
    (by simpa using held) h.sorted (fun q _ => Iff.rfl) (iff_of_false absent ?_)
    (fun _ => h.called p fun user => ?_) (Quiet.pcOk (h.quiet ahead) (by simpa using busy))
  · rintro ⟨pc, _⟩
    rw [goto_pc, update_self] at pc
    rcases pc with ⟨b, pc⟩ | pc | pc <;> rw [pc] at still <;> cases still
  · rw [user] at ahead
    cases ahead

/-- A step of the search. -/
theorem Ok.searches (h : s.Ok list p) (ahead : (s.pc p).approaching = true)
    (still : c.approaching = true) (held : s.Held list p c) : (s.goto p c).Ok list p :=
  h.prepares ahead (l := s.links) still (held.frame rfl rfl fun _ _ => rfl)

theorem Ok.enters (h : s.Ok list p) (pc : s.pc p = .entering) :
    ∃ after, s.runThread p = .ok after ∧ after.Ok list p := by
  have linked := h.held.linked (by simp [pc])
  refine ⟨s.goto p (.testing (startCell () list)), ?_, h.searches (by rw [pc]; rfl) rfl ?_⟩
  · simp only [runThread, pc, linked.first, deref]
    rfl
  · exact ⟨linked, [], list, rfl, rfl, by simp⟩

theorem Ok.tests (h : s.Ok list p) {e : Node Page} (pc : s.pc p = .testing e) :
    ∃ after, s.runThread p = .ok after ∧ after.Ok list p := by
  have ahead : (s.pc p).approaching = true := by rw [pc]; rfl
  have held := h.held
  rw [pc] at held
  obtain ⟨linked, front, back, split, node, earlier⟩ := held
  have body : s.runThread p = s.test p e := by simp only [runThread, pc]
  rw [body, node]
  cases back with
  | nil => exact ⟨_, rfl, h.searches ahead rfl ⟨linked, front, [], ⟨split, rfl, earlier⟩, by simp⟩⟩
  | cons q rest =>
    refine ⟨_, rfl, ?_⟩
    by_cases less : s.wakeupCmp p q = true
    · rw [if_pos less]
      refine h.searches ahead rfl
        ⟨linked, front, q :: rest, ⟨split, rfl, earlier⟩, fun r first => ?_⟩
      rw [List.head?_cons, Option.mem_some_iff] at first
      exact first ▸ of_decide_eq_true less
    · rw [if_neg less]
      refine h.searches ahead rfl ⟨linked, front, q, rest, rfl, by simp [split], rfl,
        fun r member => ?_⟩
      rcases mem_append.mp member with member | member
      · exact earlier r member
      · rw [mem_singleton.mp member]
        simpa [wakeupCmp] using less

theorem Ok.advances (h : s.Ok list p) {e : Node Page} (pc : s.pc p = .advancing e) :
    ∃ after, s.runThread p = .ok after ∧ after.Ok list p := by
  have held := h.held
  rw [pc] at held
  obtain ⟨linked, front, q, back, rfl, place⟩ := held
  have split := linked
  rw [place.split, append_assoc] at split
  obtain ⟨backward, forward⟩ := split.elem
  refine ⟨s.goto p (.testing (startCell () back)), ?_, h.searches (by rw [pc]; rfl) rfl
    ⟨linked, front ++ [q], back, place⟩⟩
  simp only [runThread, pc, listNext, isHead, isInterior, forward, backward, assert, deref]
  rfl

/-- The place found is a node of the list with a predecessor. -/
theorem Slot.node (slot : s.Slot p list before) (linked : Linked s.links list) (absent : p ∉ list) :
    before ≠ .elem p ∧ ∃ prev, s.links.prev before = some prev := by
  obtain ⟨front, back, ⟨rfl, rfl, _⟩, _⟩ := slot
  have out : p ∉ back := fun member => absent (mem_append_right front member)
  exact ⟨(elem_ne_startCell out).symm, _, linked.cut.2⟩

theorem Ok.writesElemPrev (h : s.Ok list p) (pc : s.pc p = .elemPrev before) :
    ∃ after, s.runThread p = .ok after ∧ after.Ok list p := by
  have ahead : (s.pc p).approaching = true := by rw [pc]; rfl
  have absent := h.absent ahead
  have held := h.held
  rw [pc] at held
  obtain ⟨linked, slot⟩ := held
  obtain ⟨apart, prev, here⟩ := slot.node linked absent
  refine ⟨(s.setLinks (s.links.setPrev (.elem p) (some prev))).goto p (.elemNext before), ?_,
    h.prepares ahead rfl ⟨?_, slot.frame rfl fun _ _ => rfl, ?_⟩⟩
  · have sound : assert (isInterior s.links before || isTail s.links before) = .ok () := by
      cases next : s.links.next before <;> simp [isInterior, isTail, here, next, assert]
    simp only [runThread, pc, sound, here, deref]
    rfl
  · exact linked.frame absent (by simp +contextual) (by simp)
  · simp [apart, here]

theorem Ok.writesElemNext (h : s.Ok list p) (pc : s.pc p = .elemNext before) :
    ∃ after, s.runThread p = .ok after ∧ after.Ok list p := by
  have ahead : (s.pc p).approaching = true := by rw [pc]; rfl
  have held := h.held
  rw [pc] at held
  obtain ⟨linked, slot, prev⟩ := held
  refine ⟨(s.setLinks (s.links.setNext (.elem p) (some before))).goto p (.prevNext before),
    by simp only [runThread, pc], h.prepares ahead rfl
      ⟨?_, slot.frame rfl fun _ _ => rfl, prev, by simp⟩⟩
  exact linked.frame (h.absent ahead) (by simp) (by simp +contextual)

/-- The third write links `p` in, at the place `list_insert_ordered` has for it. -/
theorem Ok.writesPrevNext (h : s.Ok list p) (pc : s.pc p = .prevNext before) :
    ∃ after, s.runThread p = .ok after ∧ after.Ok (listInsertOrdered s.wakeupCmp p list) p := by
  have ahead : (s.pc p).approaching = true := by rw [pc]; rfl
  have absent := h.absent ahead
  have quiet := h.quiet ahead
  have held := h.held
  rw [pc] at held
  obtain ⟨linked, ⟨front, back, ⟨rfl, rfl, earlier⟩, later⟩, prev, next⟩ := held
  have place : listInsertOrdered s.wakeupCmp p (front ++ back) = front ++ p :: back :=
    listInsertOrdered_split (fun q member => by simpa [wakeupCmp] using earlier q member)
      fun q first => decide_eq_true (later q first)
  refine ⟨(s.setLinks (s.links.setNext (endCell () front) (some (.elem p)))).goto p
    (.beforePrev (startCell () back)), ?_, ?_⟩
  · simp only [runThread, pc, linked.cut.2, deref]
    rfl
  · refine h.changes (fun q other => (setLinks_same _ q).trans (goto_same other _)) ?_ ?_
      (fun q other => ?_) ?_ (fun _ => h.called p (by simp [pc])) (Quiet.pcOk quiet (by simp))
    · rw [goto_pc, update_self, place]
      exact linked.insert absent prev next
    · refine listInsertOrdered_pairwise h.sorted (fun q _ less => ?_) (fun q _ notLess => ?_)
        fun q _ r _ less order => ?_
      · exact (of_decide_eq_true less).le
      · simpa [wakeupCmp] using notLess
      · exact ((of_decide_eq_true less).trans_le order).le
    · rw [(listInsertOrdered_perm _ _ _).mem_iff, mem_cons, or_iff_right other]
    · refine iff_of_true ((listInsertOrdered_perm _ _ _).mem_iff.mpr mem_cons_self) ?_
      exact ⟨.inl ⟨startCell () back, by simp⟩, quiet.2⟩

theorem Ok.writesBeforePrev (h : s.Ok list p) (pc : s.pc p = .beforePrev before) :
    ∃ after, s.runThread p = .ok after ∧ after.Ok list p := by
  have quiet := (h.threads p).quiet (by simp [pc]) (by simp [pc])
  have member : p ∈ list := (h.member p).mpr ⟨.inl ⟨before, pc⟩, quiet.2⟩
  have held := h.held
  rw [pc] at held
  refine ⟨(s.setLinks (s.links.setPrev before (some (.elem p)))).goto p .downing,
    by simp only [runThread, pc], h.changes
      (fun q other => (setLinks_same _ q).trans (goto_same other _)) ?_ h.sorted
      (fun q _ => Iff.rfl) ?_ (fun _ => h.called p (by simp [pc])) (Quiet.pcOk quiet (by simp))⟩
  · rw [goto_pc, update_self]
    exact held
  · exact iff_of_true member ⟨.inr (.inl (by simp)), quiet.2⟩

/-- A down blocks until the up has come, and then returns. -/
theorem Ok.downs (h : s.Ok list a) (pc : s.pc p = .downing) : (s.down p).Ok list a := by
  have called : s.calls p ≠ 0 := h.called p (by simp [pc])
  have ok := h.threads p
  rw [PcOk, pc] at ok
  rcases ok with quiet | ⟨unit, onTime⟩
  · rw [down, if_pos quiet.1]
    refine h.walks (p := p) rfl (fun q other => goto_same other _) (fun _ => rfl) (by rw [pc]; rfl)
      (by simp [SleepPc.inside]) ?_ (fun _ => called) (Quiet.pcOk quiet (by simp))
    simp [Queued, pc]
  · rw [down, if_neg (by omega)]
    refine h.walks (p := p) rfl (fun q other => ?_) (fun _ => rfl) (by rw [pc]; rfl)
      (by simp [SleepPc.inside]) ?_ (fun _ => called) ?_
    · exact ⟨by simp [other], by simp [other], rfl, rfl, rfl⟩
    · obtain ⟨tick, received, _⟩ := onTime
      simp [Queued, pc, received]
    · simp only [PcOk, goto_pc, update_self]
      exact ⟨by simp [unit], fun never => absurd never called, fun _ => onTime⟩

theorem Ok.calls (h : s.Ok list a) (pc : s.pc p = .user) (ticks : Int) :
    (s.call p ticks).Ok list a := by
  unfold call
  split
  · exact h
  · have ok := h.threads p
    rw [PcOk, pc] at ok
    refine h.walks (p := p) rfl (fun q other => ?_) (fun _ => rfl) (by rw [pc]; rfl)
      (by simp [SleepPc.inside]) ?_ (by simp) (Quiet.pcOk ⟨ok.1, by simp⟩ (by simp))
    · exact ⟨by simp [other], rfl, by simp [other], by simp [other], rfl⟩
    · simp [Queued, pc]

/-- Every statement of a thread that nobody disturbs. -/
theorem Ok.runs (h : s.Ok list a) (user : s.pc p ≠ .user) (waiting : s.pc p ≠ .waiting)
    (undisturbed : s.Undisturbed (.run p)) : ∃ after changed a,
      s.runThread p = .ok after ∧ after.Ok changed a ∧ s.QueueStep list changed := by
  have same : ∀ a, (∃ after, s.runThread p = .ok after ∧ after.Ok list a) → ∃ after changed a,
      s.runThread p = .ok after ∧ after.Ok changed a ∧ s.QueueStep list changed :=
    fun a ⟨after, ran, ok⟩ => ⟨after, list, a, ran, ok, .inl rfl⟩
  have mine : ∀ {c : SleepPc}, s.pc p = c → c = .entering ∨ c.inside = true → s.Ok list p :=
    fun pc place => h.passes (undisturbed (pc ▸ place))
  cases pc : s.pc p with
  | user => exact absurd pc user
  | waiting => exact absurd pc waiting
  | storing wakeup => exact same a (h.stores pc)
  | entering => exact same p ((mine pc (.inl rfl)).enters pc)
  | testing e => exact same p ((mine pc (.inr rfl)).tests pc)
  | advancing e => exact same p ((mine pc (.inr rfl)).advances pc)
  | elemPrev before => exact same p ((mine pc (.inr rfl)).writesElemPrev pc)
  | elemNext before => exact same p ((mine pc (.inr rfl)).writesElemNext pc)
  | prevNext before =>
    obtain ⟨after, ran, ok⟩ := (mine pc (.inr rfl)).writesPrevNext pc
    exact ⟨after, _, p, ran, ok, .inr (.inl ⟨p, rfl⟩)⟩
  | beforePrev before => exact same p ((mine pc (.inr rfl)).writesBeforePrev pc)
  | downing => exact same a ⟨_, by simp only [runThread, pc], h.downs pc⟩

/-- The handler finds the front of the list. -/
theorem dueFront_eq (linked : Linked s.links list) (due : s.dueFront = some p) :
    (∃ rest, list = p :: rest) ∧ s.wakeupTime p ≤ s.ticks := by
  unfold dueFront at due
  rw [linked.first] at due
  cases list with
  | nil => cases due
  | cons q rest =>
    simp only [startCell] at due
    split at due
    · cases due
    · rename_i late
      cases due
      exact ⟨⟨rest, rfl⟩, by omega⟩

/-- A queued thread that is not inside an insertion has not been upped. -/
theorem Ok.queued_quiet (h : s.Ok list a) (queued : s.Queued p)
    (outside : (s.pc p).inside = false) : s.Quiet p ∧ (s.pc p = .downing ∨ s.pc p = .waiting) := by
  obtain ⟨⟨before, pc⟩ | pc | pc, received⟩ := queued
  · exact absurd pc (ne_beforePrev outside before)
  · have ok := h.threads p
    rw [PcOk, pc] at ok
    rcases ok with quiet | ⟨_, tick, one, _⟩
    · exact ⟨quiet, .inl pc⟩
    · rw [received] at one
      cases one
  · exact ⟨(h.threads p).quiet (by simp [pc]) (by simp [pc]), .inr pc⟩

/-- A round of the handler while nobody is inside an insertion: the front gets its one
up, and it is time. -/
theorem Ok.wakes (h : s.Ok list a) (nobody : ∀ q, (s.pc q).inside = false)
    (due : s.dueFront = some p) :
    ∃ l rest, listRemove (s.up p).links (.elem p) = .ok l ∧ ((s.up p).setLinks l).Ok rest p ∧
      list = p :: rest := by
  have mine : s.Ok list p := h.passes fun q _ => nobody q
  have linked := h.held.linked (ne_beforePrev (nobody a))
  obtain ⟨⟨rest, rfl⟩, late⟩ := dueFront_eq linked due
  have queued := (h.member p).mp mem_cons_self
  obtain ⟨⟨zero, none⟩, now⟩ := h.queued_quiet queued (nobody p)
  have moved : (s.up p).pc p = .downing := by
    rcases now with pc | pc <;> simp [up, pc]
  have upped : (s.up p).received p = [s.ticks] := by simp [up, none]
  have split : Linked s.links ([] ++ p :: rest) := linked
  refine ⟨_, rest, listRemove_between split.elem.1 split.elem.2 (by simp [endCell]), ?_, rfl⟩
  refine mine.changes (fun q other => ?_) ?_ (pairwise_cons.mp h.sorted).2 (fun q other => ?_) ?_
    (fun _ => h.called p ?_) ?_
  · exact ⟨by simp [up, other], by simp [up, other], rfl, by simp [up, other], rfl⟩
  · rw [setLinks_pc, moved]
    exact split.remove
  · rw [mem_cons, or_iff_right other]
  · refine iff_of_false (nodup_cons.mp linked.nodup).1 fun waits => ?_
    have still : (s.up p).received p = [] := waits.2
    rw [upped] at still
    cases still
  · rcases now with pc | pc <;> simp [pc]
  · rw [PcOk, setLinks_pc, moved]
    exact .inr ⟨by simp [up, zero], s.ticks, upped, late⟩

theorem Ok.clock (h : s.Ok list a) (ticks : Nat) (handling : Bool) :
    { s with ticks, handling }.Ok list a :=
  ⟨h.alone, h.held.frame rfl rfl fun _ _ => rfl, h.sorted, h.member, h.called,
    fun p => (h.threads p).same ⟨rfl, rfl, rfl, rfl, rfl⟩⟩

/-- The step lemma: whatever is not disabled succeeds and keeps the queue. -/
theorem Ok.step (h : s.Ok list a) {e : SleepEvent} (undisturbed : s.Undisturbed e) :
    s.sleepStep e = .error .disabled ∨
      ∃ after changed a, s.sleepStep e = .ok after ∧ after.Ok changed a ∧
        s.QueueStep list changed := by
  cases e with
  | call p ticks =>
    simp only [sleepStep]
    split
    · rename_i free
      exact .inr ⟨_, list, a, rfl, h.calls free.2 ticks, .inl rfl⟩
    · exact .inl rfl
  | run p =>
    simp only [sleepStep]
    split
    · by_cases user : s.pc p = .user
      · exact .inl (by simp only [runThread, user])
      · by_cases waiting : s.pc p = .waiting
        · exact .inl (by simp only [runThread, waiting])
        · exact .inr (h.runs user waiting undisturbed)
    · exact .inl rfl
  | tick =>
    simp only [sleepStep]
    split
    · exact .inr ⟨_, list, a, rfl, h.clock _ _, .inl rfl⟩
    · exact .inl rfl
  | wake =>
    simp only [sleepStep]
    split
    · cases due : s.dueFront with
      | none => exact .inl rfl
      | some p =>
        obtain ⟨l, rest, removed, ok, split⟩ := h.wakes undisturbed due
        exact .inr ⟨_, rest, p, by simp only [removed]; rfl, ok, .inr (.inr ⟨p, split⟩)⟩
    · exact .inl rfl
  | done =>
    simp only [sleepStep]
    split
    · exact .inr ⟨_, list, a, rfl, h.clock _ _, .inl rfl⟩
    · exact .inl rfl

theorem init_ok : init.Ok [] 0 := by
  refine ⟨fun _ _ => rfl, Linked.empty, List.Pairwise.nil, fun p => ?_,
    fun p busy => absurd rfl busy, fun p => ⟨rfl, fun _ => rfl, fun called => absurd rfl called⟩⟩
  simp [Queued, init]

/-- The invariant of every run whose steps are all undisturbed. -/
theorem reachable_ok (h : ReachableWhile sleepingSystem Undisturbed s) : ∃ list a, s.Ok list a := by
  refine h.invariant (P := fun s => ∃ list a, s.Ok list a) ?_ ?_
  · rintro _ rfl
    exact ⟨[], 0, init_ok⟩
  · rintro s e after ⟨list, a, ok⟩ undisturbed taken
    change s.sleepStep e = .ok after at taken
    rcases ok.step undisturbed with disabled | ⟨next, changed, b, stepped, kept, _⟩
    · rw [disabled] at taken
      cases taken
    · rw [stepped] at taken
      cases taken
      exact ⟨changed, b, kept⟩

/-- The forward pointers are always those of the list. -/
theorem Ok.next_head (h : s.Ok list a) : s.links.next (.head ()) = some (startCell () list) := by
  have held := h.held
  cases pc : s.pc a with
  | beforePrev before =>
    rw [pc] at held
    have linked : Linked (s.links.setPrev before (some (.elem a))) list := held
    exact linked.first
  | _ => exact (held.linked (by simp [pc])).first

/-- If the front is not due, nobody on the list is. -/
theorem Ok.none_due (h : s.Ok list a) (early : s.dueFront = none) (member : p ∈ list) :
    s.ticks < s.wakeupTime p := by
  rw [dueFront, h.next_head] at early
  cases list with
  | nil => cases member
  | cons front rest =>
    simp only [startCell] at early
    split at early
    · rename_i later
      rcases mem_cons.mp member with rfl | behind
      · exact later
      · exact later.trans_le ((pairwise_cons.mp h.sorted).1 p behind)
    · cases early

/-- At most one up since the call began, none before its time, and one by its end. -/
structure Upped (s : Sleeping) (p : Page) : Prop where
  early : ∀ tick ∈ s.received p, s.wakeupTime p ≤ tick
  once : (s.received p).length ≤ 1
  returned : s.pc p = .user → s.calls p ≠ 0 → s.received p ≠ []

theorem OnTime.upped (h : s.OnTime p) : s.Upped p := by
  obtain ⟨tick, one, late⟩ := h
  exact ⟨by simpa [one] using late, by simp [one], by simp [one]⟩

theorem Quiet.upped (h : s.Quiet p) (busy : s.pc p ≠ .user) : s.Upped p :=
  ⟨by simp [h.2], by simp [h.2], fun user => absurd user busy⟩

theorem Ok.upped (h : s.Ok list a) (p : Page) : s.Upped p := by
  have ok := h.threads p
  by_cases user : s.pc p = .user
  · rw [PcOk, user] at ok
    by_cases never : s.calls p = 0
    · have none := ok.2.1 never
      exact ⟨by simp [none], by simp [none], fun _ called => absurd never called⟩
    · exact (ok.2.2 never).upped
  · by_cases down : s.pc p = .downing
    · rw [PcOk, down] at ok
      rcases ok with quiet | ⟨_, onTime⟩
      · exact quiet.upped user
      · exact onTime.upped
    · exact (ok.quiet user down).upped user

/-- A statement of `p` moves no other thread. -/
theorem runThread_others {q : Page} (other : q ≠ p) (ran : s.runThread p = .ok after) :
    after.pc q = s.pc q := by
  cases pc : s.pc p with
  | user | waiting =>
    simp only [runThread, pc] at ran
    cases ran
  | storing _ | elemNext _ | beforePrev _ =>
    simp only [runThread, pc, Except.ok.injEq] at ran
    simp [← ran, other]
  | entering | advancing _ =>
    simp only [runThread, pc] at ran
    obtain ⟨e, _, rfl⟩ := map_eq_ok.mp ran
    simp [other]
  | testing e =>
    simp only [runThread, pc] at ran
    cases e with
    | head => cases ran
    | tail =>
      cases ran
      simp [other]
    | elem r =>
      cases ran
      simp [other]
  | elemPrev before =>
    simp only [runThread, pc] at ran
    obtain ⟨_, _, ran⟩ := bind_eq_ok.mp ran
    obtain ⟨prev, _, ⟨⟩⟩ := bind_eq_ok.mp ran
    simp [other]
  | prevNext before =>
    simp only [runThread, pc] at ran
    obtain ⟨prev, _, ⟨⟩⟩ := bind_eq_ok.mp ran
    simp [other]
  | downing =>
    simp only [runThread, pc, Except.ok.injEq] at ran
    rw [← ran, down]
    split <;> simp [other]

/-- Only a statement of its own puts a thread inside an insertion. -/
theorem sleepStep_outside {e : SleepEvent} (taken : s.sleepStep e = .ok after) (other : e ≠ .run p)
    (outside : (s.pc p).inside = false) : (after.pc p).inside = false := by
  cases e with
  | call q ticks =>
    simp only [sleepStep, call] at taken
    split at taken
    · cases taken
      split
      · exact outside
      · by_cases here : p = q
        · simp [here, SleepPc.inside]
        · simpa [here] using outside
    · cases taken
  | run q =>
    simp only [sleepStep] at taken
    split at taken
    · rw [runThread_others (by rintro rfl; exact other rfl) taken]
      exact outside
    · cases taken
  | wake =>
    simp only [sleepStep] at taken
    split at taken
    · split at taken
      · rename_i q due
        obtain ⟨l, _, rfl⟩ := map_eq_ok.mp taken
        by_cases here : p = q
        · subst here
          by_cases waits : s.pc p = .waiting
          · simp [up, waits, SleepPc.inside]
          · simpa [up, waits] using outside
        · simpa [up, here] using outside
      · cases taken
    · cases taken
  | tick | done =>
    simp only [sleepStep] at taken
    split at taken
    · cases taken
      exact outside
    · cases taken

/-- `Undisturbed` for runs in which only threads on pages below `n` sleep. -/
def within (n : Nat) (s : Sleeping) : SleepEvent → Bool
  | .run p => p < n && decide (s.pc p = .entering ∨ (s.pc p).inside = true →
      ∀ q < n, q ≠ p → (s.pc q).inside = false)
  | .wake => decide (∀ q < n, (s.pc q).inside = false)
  | _ => true

theorem reachable_within {n : Nat}
    (h : ReachableWhile sleepingSystem (fun s e => s.within n e = true) s) :
    ReachableWhile sleepingSystem Undisturbed s ∧ ∀ q, n ≤ q → (s.pc q).inside = false := by
  refine h.invariant (P := fun s => ReachableWhile sleepingSystem Undisturbed s ∧
    ∀ q, n ≤ q → (s.pc q).inside = false) ?_ ?_
  · rintro s rfl
    exact ⟨.initial rfl, fun _ _ => rfl⟩
  · rintro s e after ⟨reached, outside⟩ allowed taken
    have undisturbed : s.Undisturbed e := by
      cases e with
      | call | tick | done => trivial
      | run p =>
        obtain ⟨_, allowed⟩ := Bool.and_eq_true_iff.mp allowed
        intro busy q other
        by_cases small : q < n
        · exact of_decide_eq_true allowed busy q small other
        · exact outside q (not_lt.mp small)
      | wake =>
        intro q
        by_cases small : q < n
        · exact of_decide_eq_true allowed q small
        · exact outside q (not_lt.mp small)
    refine ⟨reached.step e undisturbed taken, fun q large => ?_⟩
    refine sleepStep_outside taken ?_ (outside q large)
    rintro rfl
    obtain ⟨small, _⟩ := Bool.and_eq_true_iff.mp allowed
    exact absurd (of_decide_eq_true small) (not_lt.mpr large)

end
end Sleeping
end Calendarizador.Source

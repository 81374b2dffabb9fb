import Calendarizador.Invariant.SleepSteps
import Calendarizador.Source.CreateSteps

/-!
# `all_list` between interrupts

As long as no two insertions into `all_list` overlap and the last thread of the list does
not exit while an insertion holds a pointer to it, the pointers are a list of exactly the
threads that `init_thread` has set up and that have not exited. `Tracks` is about who
creates whom, `ListOk` about the pointers.
-/
namespace Calendarizador.Source
open Foundation Function List

namespace CreatePc

/-- A thread that `init_thread` has set up and that has not exited. -/
def completed : CreatePc → Bool
  | .free | .initialising | .dying => false
  | _ => true

/-- About to write a pointer of its insertion. -/
def writes : CreatePc → Bool
  | .elemPrev _ | .elemNext _ | .prevNext _ | .beforePrev _ => true
  | _ => false

/-- Between the first and the last write of its insertion. -/
def inside : CreatePc → Bool
  | .elemNext _ | .prevNext _ | .beforePrev _ => true
  | _ => false

/-- Holds a pointer to the last element and has not linked the new one behind it. -/
def placing : CreatePc → Bool
  | .elemNext _ | .prevNext _ => true
  | _ => false

/-- The thread it is creating. -/
def creates : CreatePc → Option Page
  | .clearing t | .elemPrev t | .elemNext t | .prevNext t | .beforePrev t | .unblocking t => some t
  | _ => none

/-- Where the thread it is creating is. -/
def child : CreatePc → CreatePc
  | .unblocking _ => .blocked
  | _ => .initialising

theorem child_creates (c : CreatePc) : c.child.creates = none := by cases c <;> rfl

theorem completed_of_creates {c : CreatePc} {t : Page} (creates : c.creates = some t) :
    c.completed = true := by
  cases c <;> first | rfl | cases creates

theorem inside_of_placing {c : CreatePc} (placing : c.placing = true) : c.inside = true := by
  cases c <;> first | rfl | cases placing

end CreatePc

/-- Every new thread has one creator. -/
structure Tracks (pc : Page → CreatePc) : Prop where
  child : ∀ p t, (pc p).creates = some t → pc t = (pc p).child
  unique : ∀ p q t, (pc p).creates = some t → (pc q).creates = some t → p = q

namespace Tracks
variable {pc : Page → CreatePc} {p t : Page} {c : CreatePc}

/-- A thread that creates another is not being created. -/
theorem not_created (h : Tracks pc) (creates : (pc p).creates ≠ none) (q : Page) :
    (pc q).creates ≠ some p := by
  intro created
  rw [h.child q p created, CreatePc.child_creates] at creates
  exact creates rfl

theorem ne_child (h : Tracks pc) (creates : (pc p).creates = some t) : t ≠ p := by
  rintro rfl
  exact h.not_created (by rw [creates]; simp) t creates

/-- Nobody creates a thread that is neither initialising nor blocked. -/
theorem not_child (h : Tracks pc) (before : pc t ≠ .initialising) (after : pc t ≠ .blocked)
    (q : Page) : (pc q).creates ≠ some t := by
  intro created
  have child := h.child q t created
  cases place : pc q with
  | unblocking =>
    rw [place] at child
    exact after child
  | _ =>
    rw [place] at child
    exact before child

/-- One thread, which nobody creates, moves. If it creates a thread, that one is where it has to
be, and nobody else creates it. -/
theorem change (h : Tracks pc) (alone : ∀ q, q ≠ p → (pc q).creates ≠ some p)
    (child : ∀ t, c.creates = some t →
      update pc p c t = c.child ∧ ∀ q, q ≠ p → (pc q).creates ≠ some t) :
    Tracks (update pc p c) := by
  constructor
  · intro q t created
    by_cases here : q = p
    · subst here
      rw [update_self] at created ⊢
      exact (child t created).1
    · rw [update_of_ne here] at created ⊢
      have notHere : t ≠ p := fun same => alone q here (same ▸ created)
      rw [update_of_ne notHere]
      exact h.child q t created
  · intro q r t first second
    by_cases one : q = p <;> by_cases two : r = p
    · rw [one, two]
    · rw [one, update_self] at first
      rw [update_of_ne two] at second
      exact absurd second ((child t first).2 r two)
    · rw [two, update_self] at second
      rw [update_of_ne one] at first
      exact absurd first ((child t second).2 q one)
    · rw [update_of_ne one] at first
      rw [update_of_ne two] at second
      exact h.unique q r t first second

/-- A thread that nobody creates may move anywhere that does not create. -/
theorem settles (h : Tracks pc) (alone : ∀ q, q ≠ p → (pc q).creates ≠ some p)
    (idle : c.creates = none) : Tracks (update pc p c) := by
  refine h.change alone fun t created => ?_
  rw [idle] at created
  cases created

/-- A step of a creator that leaves the new thread where it is. -/
theorem moves (h : Tracks pc) (creating : (pc p).creates = some t) (same : c.creates = some t)
    (stays : c.child = (pc p).child) : Tracks (update pc p c) := by
  refine h.change (fun q _ => h.not_created (by rw [creating]; simp) q) fun u created => ?_
  cases same.symm.trans created
  rw [update_of_ne (h.ne_child creating), stays]
  exact ⟨h.child p t creating, fun q other created => other (h.unique q p t created creating)⟩

/-- `p` becomes the creator of a thread that nobody creates. -/
theorem claims (h : Tracks pc) (user : pc p = .user) (other : t ≠ p)
    (nobody : ∀ q, (pc q).creates ≠ some t) (creates : c.creates = some t) :
    Tracks (update (update pc t c.child) p c) := by
  have waiting : Tracks (update pc t c.child) :=
    h.settles (fun q _ => nobody q) (CreatePc.child_creates c)
  have away : update pc t c.child p = .user := by rw [update_of_ne other.symm, user]
  refine waiting.change (fun q _ => waiting.not_child (by simp [away]) (by simp [away]) q)
    fun u created => ?_
  cases creates.symm.trans created
  rw [update_of_ne other, update_self]
  refine ⟨rfl, fun q _ => ?_⟩
  by_cases here : q = t
  · rw [here, update_self, CreatePc.child_creates]
    simp
  · rw [update_of_ne here]
    exact nobody q

/-- A creator drops the thread it was creating. -/
theorem drops (h : Tracks pc) (creating : (pc p).creates = some t) :
    Tracks (update pc p .user) ∧ ∀ q, (update pc p .user q).creates ≠ some t := by
  refine ⟨h.settles (fun q _ => h.not_created (by rw [creating]; simp) q) rfl,
    fun q created => ?_⟩
  by_cases here : q = p
  · rw [here, update_self] at created
    cases created
  · rw [update_of_ne here] at created
    exact here (h.unique q p t created creating)

/-- `p` starts to create `t`. -/
theorem begins (h : Tracks pc) (user : pc p = .user) (free : pc t = .free) :
    Tracks (update (update pc t .initialising) p (.clearing t)) := by
  have other : t ≠ p := by
    rintro rfl
    rw [user] at free
    cases free
  exact h.claims user other (h.not_child (by simp [free]) (by simp [free])) (c := .clearing t) rfl

/-- `init_thread` returns. -/
theorem links (h : Tracks pc) (last : pc p = .beforePrev t) :
    Tracks (update (update pc t .blocked) p (.unblocking t)) := by
  have creating : (pc p).creates = some t := by rw [last]; rfl
  have other := h.ne_child creating
  obtain ⟨dropped, nobody⟩ := h.drops creating
  have linked := dropped.claims (update_self _ _ _) other nobody (c := .unblocking t) rfl
  rwa [update_comm other.symm, update_idem] at linked

/-- `thread_unblock` lets the new thread run. -/
theorem ends (h : Tracks pc) (last : pc p = .unblocking t) :
    Tracks (update (update pc t .user) p .user) := by
  have creating : (pc p).creates = some t := by rw [last]; rfl
  obtain ⟨returned, nobody⟩ := h.drops creating
  rw [update_comm (h.ne_child creating)]
  exact returned.settles (fun q _ => nobody q) rfl

end Tracks

/-- What the writes of an insertion have made of the pointers, if its thread is at `c`. -/
inductive Shape (l : Links Page) (list : List Page) : CreatePc → Prop
  | outside {c : CreatePc} (out : c.inside = false) (linked : Linked l list) : Shape l list c
  | elemNext {t : Page} (linked : Linked l list) (fresh : t ∉ list)
    (backward : l.prev (.elem t) = l.prev (.tail ())) : Shape l list (.elemNext t)
  | prevNext {t : Page} (linked : Linked l list) (fresh : t ∉ list)
    (backward : l.prev (.elem t) = l.prev (.tail ()))
    (forward : l.next (.elem t) = some (.tail ())) : Shape l list (.prevNext t)
  /-- All is done but the last write. -/
  | beforePrev {t : Page} {most : List Page} (ends : list = most ++ [t])
    (linked : Linked (l.setPrev (.tail ()) (some (.elem t))) list) : Shape l list (.beforePrev t)

namespace Shape
variable {l m : Links Page} {list front back : List Page} {p t : Page} {c : CreatePc}

theorem linked (h : Shape l list c) (settled : ∀ t, c ≠ .beforePrev t) : Linked l list := by
  cases h with
  | outside _ linked | elemNext linked | prevNext linked => exact linked
  | beforePrev => exact absurd rfl (settled _)

/-- Only the back pointer of the tail may lag behind. -/
theorem almost (h : Shape l list c) :
    ∃ m, Linked m list ∧ m.next = l.next ∧ ∀ n, n ≠ .tail () → m.prev n = l.prev n := by
  cases h with
  | outside _ linked | elemNext linked | prevNext linked => exact ⟨l, linked, rfl, fun _ _ => rfl⟩
  | beforePrev _ linked =>
    exact ⟨_, linked, rfl, fun n other => CellHeap.setPrev_prev_of_ne l _ _ other⟩

/-- A write to the element of a thread that is not linked and not being linked. -/
theorem frame (h : Shape l list c) (fresh : t ∉ list)
    (other : c.creates = some t → c.inside = false)
    (prev : ∀ n, n ≠ .elem t → m.prev n = l.prev n)
    (next : ∀ n, n ≠ .elem t → m.next n = l.next n) : Shape m list c := by
  have apart : ∀ {u}, c.creates = some u → c.inside = true → (.elem u : Node Page) ≠ .elem t := by
    rintro u creates inside ⟨⟩
    rw [other creates] at inside
    cases inside
  cases h with
  | outside out linked => exact .outside out (linked.frame fresh prev next)
  | elemNext linked new backward =>
    refine .elemNext (linked.frame fresh prev next) new ?_
    rw [prev _ (apart rfl rfl), prev _ (by simp), backward]
  | prevNext linked new backward forward =>
    refine .prevNext (linked.frame fresh prev next) new ?_ ?_
    · rw [prev _ (apart rfl rfl), prev _ (by simp), backward]
    · rw [next _ (apart rfl rfl), forward]
  | beforePrev ends linked =>
    refine .beforePrev ends (linked.frame fresh (fun n other => ?_) next)
    by_cases tail : n = .tail ()
    · rw [tail, CellHeap.setPrev_prev_self, CellHeap.setPrev_prev_self]
    · rw [CellHeap.setPrev_prev_of_ne _ _ _ tail, CellHeap.setPrev_prev_of_ne _ _ _ tail,
        prev n other]

/-- The writes of `list_remove`, also between the last two writes of an insertion. An insertion
that holds a pointer to the last element does not hold one to `p`. -/
theorem unlink (h : Shape l (front ++ p :: back) c) (old : c.creates ≠ some p)
    (notLast : c.placing = true → l.prev (.tail ()) ≠ some (.elem p)) :
    Shape ((l.setNext (endCell () front) (some (startCell () back))).setPrev (startCell () back)
      (some (endCell () front))) (front ++ back) c := by
  have inner (linked : Linked l (front ++ p :: back)) (placing : c.placing = true) :
      .tail () ≠ startCell () back := by
    intro last
    have ends := (Represents.link_elem linked (l := ()) rfl).2
    rw [← last] at ends
    exact notLast placing ends
  have apart {u : Page} (fresh : u ∉ front ++ p :: back) : u ∉ front ++ back ∧
      .elem u ≠ endCell () front ∧ .elem u ≠ startCell () back := by
    simp only [mem_append, mem_cons, not_or] at fresh ⊢
    exact ⟨⟨fresh.1, fresh.2.2⟩, elem_ne_endCell fresh.1, elem_ne_startCell fresh.2.2⟩
  cases h with
  | outside out linked => exact .outside out linked.remove
  | elemNext linked fresh backward =>
    obtain ⟨new, _, first⟩ := apart fresh
    refine .elemNext linked.remove new ?_
    simpa [first, inner linked rfl] using backward
  | prevNext linked fresh backward forward =>
    obtain ⟨new, last, first⟩ := apart fresh
    refine .prevNext linked.remove new ?_ ?_
    · simpa [first, inner linked rfl] using backward
    · simpa [last] using forward
  | @beforePrev t most ends linked =>
    obtain ⟨middle, rfl⟩ : ∃ middle, back = middle ++ [t] := by
      rcases eq_nil_or_concat' back with rfl | ⟨middle, last, rfl⟩
      · exact absurd (congrArg some (singleton_inj.mp (append_inj' ends rfl).2)).symm old
      · rw [← cons_append, ← append_assoc] at ends
        cases (append_inj' ends rfl).2
        exact ⟨middle, rfl⟩
    have notTail : startCell () (middle ++ [t]) ≠ .tail () := by cases middle <;> simp [startCell]
    have same := update_comm notTail.symm (some (.elem t)) (some (endCell () front)) l.prev
    have removed := linked.remove
    refine .beforePrev (append_assoc _ _ _).symm ?_
    simp only [CellHeap.setNext, CellHeap.setPrev, same] at removed ⊢
    exact removed

/-- `list_remove` of a thread on the list. -/
theorem removes (h : Shape l list c) (listed : p ∈ list) (old : c.creates ≠ some p)
    (notLast : c.placing = true → l.prev (.tail ()) ≠ some (.elem p)) :
    ∃ m rest, listRemove l (.elem p) = .ok m ∧ Shape m rest c ∧
      ∀ u, u ∈ rest ↔ u ∈ list ∧ u ≠ p := by
  obtain ⟨front, back, rfl⟩ := append_of_mem listed
  obtain ⟨m, linked, next, prev⟩ := h.almost
  obtain ⟨out, _⟩ := nodup_cons.mp (nodup_middle.mp linked.nodup)
  have backward : l.prev (.elem p) = _ := (prev _ (by simp)).symm.trans linked.elem.1
  refine ⟨_, front ++ back, listRemove_between backward (next ▸ linked.elem.2)
    (elem_ne_endCell fun member => out (mem_append_left _ member)), h.unlink old notLast,
    fun u => ?_⟩
  by_cases here : u = p
  · subst here
    simpa using out
  · simp [here]

end Shape

/-- The pointers of `all_list` hold `list`, and nobody but `a` is inside an insertion. -/
structure ListOk (l : Links Page) (pc : Page → CreatePc) (list : List Page) (a : Page) : Prop where
  alone : ∀ q, q ≠ a → (pc q).inside = false
  shape : Shape l list (pc a)
  member : ∀ t, t ∈ list ↔ (pc t).completed = true ∨ pc a = .beforePrev t

/-- Only threads outside an insertion move, and they stay outside. -/
def Beside (pc new : Page → CreatePc) : Prop :=
  ∀ q, new q = pc q ∨ (new q).inside = false ∧ (pc q).inside = false

section
variable {l m : Links Page} {pc new : Page → CreatePc} {list rest : List Page} {a p t : Page}
  {c : CreatePc}

theorem Beside.refl (pc : Page → CreatePc) : Beside pc pc := fun _ => .inl rfl

theorem Beside.update (h : Beside pc new) (out : (pc p).inside = false) (after : c.inside = false) :
    Beside pc (update new p c) := by
  intro q
  by_cases here : q = p
  · rw [here, update_self]
    exact .inr ⟨after, out⟩
  · rw [update_of_ne here]
    exact h q

theorem completed_update (same : ∀ q, (new q).completed = (pc q).completed)
    (mine : c.completed = (pc p).completed) (q : Page) :
    (update new p c q).completed = (pc q).completed := by
  by_cases here : q = p
  · rw [here, update_self, mine]
  · rw [update_of_ne here, same]

namespace ListOk

/-- A thread that is not linked yet is not on the list. -/
theorem fresh (h : ListOk l pc list a) (tracks : Tracks pc) (creating : (pc p).creates = some t)
    (before : (pc p).child = .initialising) (unlinked : pc p ≠ .beforePrev t) : t ∉ list := by
  intro listed
  rcases (h.member t).mp listed with completed | last
  · rw [tracks.child p t creating, before] at completed
    cases completed
  · have same := tracks.unique a p t (by rw [last]; rfl) creating
    exact unlinked (same ▸ last)

/-- Threads move outside, and the pointers change in a way that does not matter to `a`. -/
theorem moves (h : ListOk l pc list a) (beside : Beside pc new) (shape : Shape m rest (pc a))
    (member : ∀ t, t ∈ rest ↔ (new t).completed = true ∨ pc a = .beforePrev t) :
    ListOk m new rest a := by
  have settled : ∀ {c : CreatePc}, c.inside = false → ∀ t, c ≠ .beforePrev t := by
    rintro _ out t rfl
    cases out
  refine ⟨fun q other => ?_, ?_, fun t => ?_⟩
  · rcases beside q with same | ⟨out, _⟩
    · rw [same, h.alone q other]
    · exact out
  · rcases beside a with same | ⟨out, before⟩
    · exact same ▸ shape
    · exact .outside out (shape.linked (settled before))
  · rw [member]
    rcases beside a with same | ⟨out, before⟩
    · rw [same]
    · exact or_congr_right (iff_of_false (settled before t) (settled out t))

/-- Threads move outside that stay on the list or off it. -/
theorem repc (h : ListOk l pc list a) (beside : Beside pc new) (shape : Shape m list (pc a))
    (same : ∀ q, (new q).completed = (pc q).completed) : ListOk m new list a := by
  refine h.moves beside shape fun t => ?_
  rw [same, h.member]

/-- Anybody may be the one who is inside if nobody else is. -/
theorem passes (h : ListOk l pc list a) (alone : ∀ q, q ≠ p → (pc q).inside = false) :
    ListOk l pc list p := by
  by_cases here : a = p
  · exact here ▸ h
  have before := alone a here
  have mine := h.alone p (Ne.symm here)
  have settled : ∀ t, pc a ≠ .beforePrev t ∧ pc p ≠ .beforePrev t := by
    intro t
    constructor <;> intro last
    · rw [last] at before
      cases before
    · rw [last] at mine
      cases mine
  refine ⟨alone, .outside mine (h.shape.linked fun t => (settled t).1), fun t => ?_⟩
  rw [h.member]
  exact or_congr_right (iff_of_false (settled t).1 (settled t).2)

end ListOk
end

variable {l : Links Page} {list : List Page} {bound : Nat}

/-- The walk of `thread_foreach` from an element on; the back pointer of the tail is not read. -/
theorem foreachFrom_linked {m : Links Page} {front : List Page} (linked : Linked m (front ++ list))
    (next : m.next = l.next) (prev : ∀ n, n ≠ .tail () → m.prev n = l.prev n)
    (enough : list.length ≤ bound) : foreachFrom l bound (startCell () list) = .ok list := by
  induction list generalizing front bound with
  | nil => cases bound <;> rfl
  | cons t rest ih =>
    obtain ⟨backward, forward⟩ := linked.elem
    cases bound with
    | zero => cases enough
    | succ bound =>
      rw [next] at forward
      rw [prev _ (by simp)] at backward
      have follows : listNext l (.elem t) = .ok (startCell () rest) := by
        simp [listNext, isHead, isInterior, forward, backward, assert, deref, bind, Except.bind]
      have onward : Linked m (front ++ [t] ++ rest) := by simpa using linked
      have walked := ih onward (Nat.le_of_succ_le_succ enough)
      rw [startCell, foreachFrom, bind_eq_ok]
      exact ⟨_, follows, bind_eq_ok.mpr ⟨rest, walked, rfl⟩⟩

theorem foreachFrom_mono {n : Node Page} {more : Nat} (done : foreachFrom l bound n = .ok list)
    (larger : bound ≤ more) : foreachFrom l more n = .ok list := by
  induction bound generalizing n list more with
  | zero =>
    cases n with
    | tail => cases more <;> exact done
    | head | elem => cases done
  | succ bound ih =>
    obtain ⟨more, rfl⟩ : ∃ less, more = less + 1 := ⟨more - 1, by omega⟩
    cases n with
    | tail => exact done
    | head => cases done
    | elem t =>
      rw [foreachFrom, bind_eq_ok] at done ⊢
      obtain ⟨next, follows, done⟩ := done
      obtain ⟨rest, walked, same⟩ := bind_eq_ok.mp done
      refine ⟨next, follows, bind_eq_ok.mpr ⟨rest, ?_, same⟩⟩
      exact ih walked (Nat.le_of_succ_le_succ larger)

theorem visited_mono {more : Nat} (done : visited l bound = .ok list) (larger : bound ≤ more) :
    visited l more = .ok list := by
  obtain ⟨first, found, walked⟩ := bind_eq_ok.mp done
  exact bind_eq_ok.mpr ⟨first, found, foreachFrom_mono walked larger⟩

namespace Creating

/-- No insertion overlaps another one, and the last thread of the list does not exit while
an insertion holds a pointer to it. -/
def Undisturbed (s : Creating) : CreateEvent → Prop
  | .run p => (s.pc p).writes = true → ∀ q, q ≠ p → (s.pc q).inside = false
  | .exit p => (∃ q, (s.pc q).placing = true) → s.links.prev (.tail ()) ≠ some (.elem p)
  | _ => True

structure Ok (s : Creating) (list : List Page) (a : Page) : Prop where
  tracks : Tracks s.pc
  queue : ListOk s.links s.pc list a

section
variable {s : Creating} {list : List Page} {a p t : Page}

theorem ok_init : Creating.init.Ok [0] 0 := by
  have others : ∀ {p}, p ≠ 0 → Creating.init.pc p = .free := by
    intro p here
    simp [Creating.init, here]
  have nothing : ∀ p, (Creating.init.pc p).creates = none := by
    intro p
    by_cases here : p = 0
    · rw [here]
      rfl
    · rw [others here]
      rfl
  refine ⟨⟨fun p t creates => ?_, fun p q t creates => ?_⟩, fun q here => ?_, .outside rfl ?_,
    fun t => ?_⟩
  · rw [nothing] at creates
    cases creates
  · rw [nothing] at creates
    cases creates
  · rw [others here]
    rfl
  · exact linked_of_chain (by simp [cells, CellHeap.Adj, Creating.init]) (by simp) rfl rfl
  · by_cases here : t = 0
    · rw [here]
      exact iff_of_true (by simp) (.inl rfl)
    · simp [Creating.init, here, CreatePc.completed]

/-- A thread that is about to write is the one inside, and the pointers are as far as it is. -/
theorem Ok.writer (h : s.Ok list a) (undisturbed : s.Undisturbed (.run p)) {c : CreatePc}
    (place : s.pc p = c) (writes : c.writes = true) :
    ListOk s.links s.pc list p ∧ Shape s.links list c := by
  have mine := h.queue.passes (undisturbed (by rw [place, writes]))
  exact ⟨mine, place ▸ mine.shape⟩

/-- A write of an insertion, but for the last one. -/
theorem Ok.writes (h : s.Ok list a) (mine : ListOk s.links s.pc list p) {c d : CreatePc}
    (place : s.pc p = c) {m : Links Page} {rest : List Page} (shape : Shape m rest d)
    (before : ∀ u, c ≠ .beforePrev u) (creating : c.creates = some t) (same : d.creates = some t)
    (stays : d.child = c.child) (member : ∀ u, u ∈ rest ↔ u ∈ list ∨ d = .beforePrev u) :
    ((s.setLinks m).goto p d).Ok rest p := by
  subst place
  have completed : d.completed = (s.pc p).completed := by
    rw [CreatePc.completed_of_creates same, CreatePc.completed_of_creates creating]
  have queue : ListOk m (update s.pc p d) rest p := by
    refine ⟨fun q other => ?_, ?_, fun u => ?_⟩
    · rw [update_of_ne other]
      exact mine.alone q other
    · rw [update_self]
      exact shape
    · rw [update_self, member, mine.member, or_iff_left (before u),
        completed_update (fun _ => rfl) completed]
  exact ⟨h.tracks.moves creating same stays, queue⟩

/-- The last write of an insertion: the new thread is on the list. -/
theorem Ok.last (h : s.Ok list a) (mine : ListOk s.links s.pc list p)
    (place : s.pc p = .beforePrev t)
    (linked : Linked (s.links.setPrev (.tail ()) (some (.elem t))) list) :
    (((s.setLinks (s.links.setPrev (.tail ()) (some (.elem t)))).goto t .blocked).goto p
      (.unblocking t)).Ok list p := by
  have apart : t ≠ p := h.tracks.ne_child (by rw [place]; rfl)
  refine ⟨h.tracks.links place, fun q other => ?_, ?_, fun u => ?_⟩
  · by_cases new : q = t
    · simp [new, apart, CreatePc.inside]
    · simpa [new, other] using mine.alone q other
  · simpa using .outside rfl linked
  · rw [mine.member, place]
    by_cases new : u = t
    · subst new
      simp [apart, CreatePc.completed]
    · by_cases here : u = p
      · simp [here, place, CreatePc.completed]
      · simp [new, Ne.symm new, here]

/-- A statement of `thread_create`. -/
theorem Ok.run (h : s.Ok list a) (undisturbed : s.Undisturbed (.run p)) :
    s.runThread p = .error .disabled ∨
      ∃ after rest a, s.runThread p = .ok after ∧ after.Ok rest a := by
  have writer {c : CreatePc} (place : s.pc p = c) := h.writer undisturbed place
  unfold runThread
  cases place : s.pc p with
  | free | initialising | blocked | user | dying => exact .inl rfl
  | clearing t =>
    have creating : (s.pc p).creates = some t := by rw [place]; rfl
    have fresh := h.queue.fresh h.tracks creating (by rw [place]; rfl) (by rw [place]; simp)
    have elsewhere : (s.pc a).creates = some t → (s.pc a).inside = false := by
      intro created
      rw [h.tracks.unique a p t created creating, place]
      rfl
    refine .inr ⟨_, list, a, rfl, h.tracks.moves creating rfl (by rw [place]; rfl),
      h.queue.repc ?_ ?_ ?_⟩
    · exact (Beside.refl _).update (by rw [place]; rfl) rfl
    · exact h.queue.shape.frame fresh elsewhere (fun n other => update_of_ne other _ _)
        fun n other => update_of_ne other _ _
    · exact completed_update (fun _ => rfl) (by rw [place]; rfl)
  | elemPrev t =>
    obtain ⟨mine, shape⟩ := writer place rfl
    have linked := shape.linked (by simp)
    have fresh := mine.fresh h.tracks (p := p) (t := t) (by rw [place]; rfl) (by rw [place]; rfl)
      (by rw [place]; simp)
    have asserts :
        assert (isInterior s.links (.tail ()) || isTail s.links (.tail ())) = .ok () := by
      simp [isInterior, isTail, linked.last, linked.tail, assert]
    refine .inr ⟨_, list, p, by rw [asserts, linked.last]; rfl,
      h.writes mine place (.elemNext ?_ fresh ?_) (by simp) rfl rfl rfl (by simp)⟩
    · exact linked.frame fresh (fun n other => CellHeap.setPrev_prev_of_ne _ _ _ other)
        fun _ _ => rfl
    · simp [linked.last]
  | elemNext t =>
    obtain ⟨mine, shape⟩ := writer place rfl
    cases shape with
    | outside out => cases out
    | elemNext linked fresh backward =>
      refine .inr ⟨_, list, p, rfl, h.writes mine place (.prevNext ?_ fresh backward ?_)
        (by simp) rfl rfl rfl (by simp)⟩
      · exact linked.frame fresh (fun _ _ => rfl)
          fun n other => CellHeap.setNext_next_of_ne _ _ _ other
      · exact CellHeap.setNext_next_self _ _ _
  | prevNext t =>
    obtain ⟨mine, shape⟩ := writer place rfl
    cases shape with
    | outside out => cases out
    | prevNext linked fresh backward forward =>
      have split : Linked s.links (list ++ []) := by
        rw [append_nil]
        exact linked
      refine .inr ⟨_, list ++ [t], p, by rw [linked.last]; rfl,
        h.writes mine place (.beforePrev rfl ?_) (by simp) rfl rfl rfl fun u => ?_⟩
      · exact split.insert (by simpa using fresh) backward forward
      · simp [eq_comm]
  | beforePrev t =>
    obtain ⟨mine, shape⟩ := writer place rfl
    cases shape with
    | outside out => cases out
    | beforePrev ends linked => exact .inr ⟨_, list, p, rfl, h.last mine place linked⟩
  | unblocking t =>
    have creating : (s.pc p).creates = some t := by rw [place]; rfl
    have made : s.pc t = .blocked := by rw [h.tracks.child p t creating, place]; rfl
    refine .inr ⟨_, list, a, rfl, h.tracks.ends place, h.queue.repc ?_ h.queue.shape ?_⟩
    · exact ((Beside.refl _).update (by rw [made]; rfl) rfl).update (by rw [place]; rfl) rfl
    · exact completed_update (completed_update (fun _ => rfl) (by rw [made]; rfl))
        (by rw [place]; rfl)

/-- Every step that does not disturb an insertion succeeds if it can happen at all, and
keeps the list. -/
theorem Ok.step (h : s.Ok list a) {e : CreateEvent} (undisturbed : s.Undisturbed e) :
    s.createStep e = .error .disabled ∨
      ∃ after rest a, s.createStep e = .ok after ∧ after.Ok rest a := by
  have settled : ∀ {p c}, s.pc p = c → c ≠ .initialising → c ≠ .blocked →
      ∀ q, (s.pc q).creates ≠ some p := by
    rintro p _ rfl before after
    exact h.tracks.not_child before after
  cases e with
  | create p t =>
    simp only [createStep]
    split
    · rename_i free
      obtain ⟨user, free⟩ := free
      refine .inr ⟨_, list, a, rfl, h.tracks.begins user free, h.queue.repc ?_ h.queue.shape ?_⟩
      · exact ((Beside.refl _).update (by rw [free]; rfl) rfl).update (by rw [user]; rfl) rfl
      · exact completed_update (completed_update (fun _ => rfl) (by rw [free]; rfl))
          (by rw [user]; rfl)
    · exact .inl rfl
  | run p => exact h.run undisturbed
  | exit p =>
    simp only [createStep]
    split
    · rename_i user
      have old := settled user (by simp) (by simp)
      have listed : p ∈ list := (h.queue.member p).mpr (.inl (by rw [user]; rfl))
      obtain ⟨m, rest, removed, shape, others⟩ :=
        h.queue.shape.removes listed (old a) fun placing => undisturbed ⟨a, placing⟩
      have beside : Beside s.pc (update s.pc p .dying) :=
        (Beside.refl _).update (by rw [user]; rfl) rfl
      refine .inr ⟨_, rest, a, by rw [removed]; rfl, h.tracks.settles (fun q _ => old q) rfl,
        h.queue.moves beside shape fun u => ?_⟩
      rw [others, h.queue.member]
      by_cases here : u = p
      · subst here
        have linking : s.pc a ≠ .beforePrev u := fun last => old a (by rw [last]; rfl)
        simp [linking, CreatePc.completed]
      · simp [here]
    · exact .inl rfl
  | reap p =>
    simp only [createStep]
    split
    · rename_i dead
      have old := settled dead (by simp) (by simp)
      refine .inr ⟨_, list, a, rfl, h.tracks.settles (fun q _ => old q) rfl,
        h.queue.repc ?_ h.queue.shape ?_⟩
      · exact (Beside.refl _).update (by rw [dead]; rfl) rfl
      · exact completed_update (fun _ => rfl) (by rw [dead]; rfl)
    · exact .inl rfl

theorem reachable_ok (h : ReachableWhile creatingSystem Undisturbed s) :
    ∃ list a, s.Ok list a := by
  refine h.invariant (P := fun s => ∃ list a, s.Ok list a) ?_ ?_
  · rintro s rfl
    exact ⟨[0], 0, ok_init⟩
  · intro s e after before undisturbed taken
    obtain ⟨list, a, ok⟩ := before
    change s.createStep e = .ok after at taken
    rcases ok.step undisturbed with disabled | ⟨next, rest, b, stepped, kept⟩
    · rw [disabled] at taken
      cases taken
    · rw [stepped] at taken
      cases taken
      exact ⟨rest, b, kept⟩

/-- Only a statement of its own puts a thread inside an insertion. -/
theorem createStep_outside {after : Creating} {e : CreateEvent} (taken : s.createStep e = .ok after)
    {q : Page} (other : e ≠ .run q) (outside : (s.pc q).inside = false) :
    (after.pc q).inside = false := by
  have moved : ∀ {pc : Page → CreatePc} p c, (pc q).inside = false → c.inside = false →
      (update pc p c q).inside = false := by
    intro pc p c before out
    by_cases here : q = p
    · rw [here, update_self, out]
    · rw [update_of_ne here, before]
  cases e with
  | create p t =>
    simp only [createStep] at taken
    split at taken
    · cases taken
      exact moved _ _ (moved _ _ outside rfl) rfl
    · cases taken
  | run p =>
    have mine (pc : Page → CreatePc) (c : CreatePc) : update pc p c q = pc q := by
      refine update_of_ne ?_ _ _
      rintro rfl
      exact other rfl
    simp only [createStep, runThread] at taken
    cases place : s.pc p with
    | free | initialising | blocked | user | dying =>
      rw [place] at taken
      cases taken
    | clearing t | elemNext t =>
      rw [place] at taken
      cases taken
      rw [goto_pc, mine]
      exact outside
    | elemPrev t =>
      rw [place] at taken
      obtain ⟨_, _, taken⟩ := bind_eq_ok.mp taken
      obtain ⟨last, _, ⟨⟩⟩ := bind_eq_ok.mp taken
      rw [goto_pc, mine]
      exact outside
    | prevNext t =>
      rw [place] at taken
      obtain ⟨last, _, ⟨⟩⟩ := bind_eq_ok.mp taken
      rw [goto_pc, mine]
      exact outside
    | beforePrev t | unblocking t =>
      rw [place] at taken
      cases taken
      rw [goto_pc, mine]
      exact moved _ _ outside rfl
  | exit p =>
    simp only [createStep] at taken
    split at taken
    · obtain ⟨l, _, rfl⟩ := map_eq_ok.mp taken
      exact moved _ _ outside rfl
    · cases taken
  | reap p =>
    simp only [createStep] at taken
    split at taken
    · cases taken
      exact moved _ _ outside rfl
    · cases taken

/-- `Undisturbed` for runs in which only threads on pages below `n` create threads. -/
def within (n : Nat) (s : Creating) : CreateEvent → Bool
  | .run p =>
    p < n && decide ((s.pc p).writes = true → ∀ q < n, q ≠ p → (s.pc q).inside = false)
  | .exit p =>
    decide ((∃ q < n, (s.pc q).placing = true) → s.links.prev (.tail ()) ≠ some (.elem p))
  | _ => true

theorem reachable_within {n : Nat}
    (h : ReachableWhile creatingSystem (fun s e => s.within n e = true) s) :
    ReachableWhile creatingSystem Undisturbed s ∧ ∀ q, n ≤ q → (s.pc q).inside = false := by
  refine h.invariant (P := fun s => ReachableWhile creatingSystem Undisturbed s ∧
    ∀ q, n ≤ q → (s.pc q).inside = false) ?_ ?_
  · rintro s rfl
    exact ⟨.initial rfl, fun q _ => by by_cases here : q = 0 <;> simp [init, here, CreatePc.inside]⟩
  · rintro s e after ⟨reached, outside⟩ allowed taken
    have undisturbed : s.Undisturbed e := by
      cases e with
      | create | reap => trivial
      | run p =>
        obtain ⟨_, allowed⟩ := Bool.and_eq_true_iff.mp allowed
        intro writes q other
        by_cases small : q < n
        · exact of_decide_eq_true allowed writes q small other
        · exact outside q (not_lt.mp small)
      | exit p =>
        rintro ⟨q, placing⟩
        by_cases small : q < n
        · exact of_decide_eq_true allowed ⟨q, small, placing⟩
        · have out := outside q (not_lt.mp small)
          rw [CreatePc.inside_of_placing placing] at out
          cases out
    refine ⟨reached.step e undisturbed taken, fun q large => ?_⟩
    refine createStep_outside taken ?_ (outside q large)
    rintro rfl
    obtain ⟨small, _⟩ := Bool.and_eq_true_iff.mp allowed
    exact absurd (of_decide_eq_true small) (not_lt.mpr large)

end
end Creating
end Calendarizador.Source

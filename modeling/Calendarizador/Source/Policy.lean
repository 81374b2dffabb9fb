import Calendarizador.Foundation.NaturalMerge
import Calendarizador.Source.FixedPoint
import Calendarizador.Source.Kernel

/-!
# Orders, estimates and averages

The comparison functions of `threads/thread.c` with the list operations of
`lib/kernel/list.c` they are passed to, the burst estimates of SJF, and the averages and
priorities of the multilevel queues. Nothing here changes a status or the running thread.
-/
namespace Calendarizador.Source
open Foundation List
variable {α : Type}

def quantum : Nat := 7

def timerFreq : Nat := 100

def priMin : Int := 0

def priMax : Int := 63

/-- `list_sort`: a natural merge sort on the elements of the list. -/
def listSort {α : Type} (less : α → α → Bool) (list : List α) : List α := naturalSort less list

/-- `list_insert_ordered`: in front of the first element that `elem` is less than. -/
def listInsertOrdered {α : Type} (less : α → α → Bool) (elem : α) : List α → List α
  | [] => [elem]
  | e :: rest => if less elem e then elem :: e :: rest else e :: listInsertOrdered less elem rest

def wakeupCmp (k : Kernel) (left right : Page) : Bool :=
  decide ((k.thread left).wakeupTime < (k.thread right).wakeupTime)

/-- The thread with the higher priority comes first. -/
def priorityCmp (k : Kernel) (left right : Page) : Bool :=
  decide ((k.thread left).priority > (k.thread right).priority)

def durationCmp (k : Kernel) (left right : Page) : Bool :=
  decide ((k.thread left).totalExec < (k.thread right).totalExec)

/-- Applies a function to every thread of `all_list` in order. -/
def threadForeach (k : Kernel) (f : Kernel → Page → Except Fault Kernel) : Except Fault Kernel :=
  k.allList.foldlM f k

/-- The first record with a given name. -/
def recordOf (k : Kernel) (name : Name) : Option Page :=
  k.allAllList.find? fun r => (k.thread r).name = name

/-- The estimate of the first record with the name of `t`; a thread whose name has no
record becomes the record, with estimate zero. -/
def getTotalExec (k : Kernel) (t : Page) : Int × Kernel :=
  match recordOf k (k.thread t).name with
  | some r => ((k.thread r).totalExec, k)
  | none => (0, { k with allAllList := k.allAllList ++ [t] })

/-- The estimate kept under a name: that of its record, or zero. -/
def estimate (k : Kernel) (name : Name) : Int :=
  ((recordOf k name).map fun r => (k.thread r).totalExec).getD 0

theorem getTotalExec_fst (k : Kernel) (t : Page) :
    (getTotalExec k t).1 = estimate k (k.thread t).name := by
  unfold getTotalExec estimate
  split
  · rename_i r found
    simp [found]
  · rename_i missing
    simp [missing]

/-- The lookup adds the thread it was called for if its name has no record. -/
theorem getTotalExec_snd (k : Kernel) (t : Page) : (getTotalExec k t).2 = { k with
      allAllList :=
        if recordOf k (k.thread t).name = none then k.allAllList ++ [t] else k.allAllList } := by
  unfold getTotalExec
  split
  · rename_i r found
    simp [found]
  · rename_i missing
    simp [missing]

theorem recordOf_congr {k after : Kernel} {name : Name} (list : after.allAllList = k.allAllList)
    (names : ∀ r ∈ k.allAllList, (after.thread r).name = (k.thread r).name) :
    recordOf after name = recordOf k name := by
  unfold recordOf
  rw [list]
  generalize k.allAllList = records at names
  induction records with
  | nil => rfl
  | cons r rest ih =>
    rw [List.find?_cons, List.find?_cons, names r mem_cons_self,
      ih fun q member => names q (mem_cons_of_mem r member)]

theorem estimate_congr {k after : Kernel} {name : Name} (list : after.allAllList = k.allAllList)
    (names : ∀ r ∈ k.allAllList, (after.thread r).name = (k.thread r).name)
    (estimates : ∀ r ∈ k.allAllList, (after.thread r).totalExec = (k.thread r).totalExec) :
    estimate after name = estimate k name := by
  unfold estimate
  rw [recordOf_congr list names]
  cases found : recordOf k name with
  | none => rfl
  | some r => simp [estimates r (mem_of_find?_eq_some found)]

/-- `t->total_exec = get_total_exec (t)`. -/
def storeTotalExec (k : Kernel) (t : Page) : Kernel :=
  (getTotalExec k t).2.upd t (Thread.setTotalExec (getTotalExec k t).1)

def getTotalExecEach (k : Kernel) (t : Page) : Except Fault Kernel := .ok (storeTotalExec k t)

/-- The new estimate from the old one and the burst just measured. -/
def newTotalExec (old recent : Int) : Int :=
  if old = 0 then recent
  else
    let oneFp := intToFp 1
    let alpha := divInt oneFp 2
    let alphaAlt := subFp oneFp alpha
    let recentVal := multInt alpha recent
    let oldVal := multInt alphaAlt old
    fpToIntRound (addFp recentVal oldVal)

/-- Stores the new estimate in the running thread. -/
def calcNewTotalExec (k : Kernel) (old recent : Int) : Kernel :=
  k.upd k.current (Thread.setTotalExec (newTotalExec old recent))

/-- The count that includes the running thread is computed by the source and not used. -/
def refreshLoadAvg (k : Kernel) : Kernel :=
  let readyLength := i32 k.readyList.length
  { k with loadAvg :=
      addFp (divInt (multInt k.loadAvg 59) 60) (divInt (intToFp readyLength) 60) }

/-- The divisor `2 * load_avg + 1` of `refresh_cpu`. -/
def decayDivisor (loadAvg : Int) : Int := addInt (multInt loadAvg 2) 1

/-- The value `refresh_cpu` stores. -/
def decayedCpu (loadAvg recentCpu nice : Int) : Int :=
  addInt (multFp (divFp (multInt loadAvg 2) (decayDivisor loadAvg)) recentCpu) nice

def refreshCpu (k : Kernel) (t : Page) : Except Fault Kernel :=
  if k.idleThread = some t then .ok k
  else if decayDivisor k.loadAvg = 0 then .error .divideError
  else .ok (k.upd t fun s => s.setRecentCpu (decayedCpu k.loadAvg s.recentCpu s.nice))

/-- 100 times the load average, to the nearest integer. -/
def threadGetLoadAvg (k : Kernel) : Int := fpToIntRound (multInt k.loadAvg 100)

/-- 100 times the recent CPU time of the running thread, to the nearest integer. -/
def threadGetRecentCpu (k : Kernel) : Int :=
  fpToIntRound (multInt (k.thread k.current).recentCpu 100)

/-- The unclamped priority, with the wrap-around of `int`. -/
def rawPriority (recentCpu nice : Int) : Int :=
  i32 (i32 (priMax - fpToIntRound (divInt recentCpu 4)) - i32 (nice * 2))

def clampPriority (pri : Int) : Int :=
  if pri > priMax then priMax else if pri < priMin then priMin else pri

/-- The history `prio` takes the unclamped value while it has room. -/
def Thread.refreshPriority (t : Thread) : Thread :=
  let pri := rawPriority t.recentCpu t.nice
  (t.setPriority (clampPriority pri)).setPrio
    (if t.pos ≠ 10 then t.prio.write t.pos pri else t.prio)
    (if t.pos ≠ 10 then t.pos + 1 else t.pos)

def refreshPriorityThread (k : Kernel) (t : Page) : Kernel := k.upd t Thread.refreshPriority

/-- The ready threads except `initial_thread`, then the running thread. -/
def refreshPriority (k : Kernel) : Kernel :=
  let refreshed := k.readyList.foldl
    (fun k t => if t ≠ k.initialThread then refreshPriorityThread k t else k) k
  refreshPriorityThread refreshed refreshed.current

def sortReadyByPriority (k : Kernel) : Kernel :=
  { k with readyList := listSort (priorityCmp k) k.readyList }

def sortReadyByDuration (k : Kernel) : Kernel :=
  { k with readyList := listSort (durationCmp k) k.readyList }

theorem priorityCmp_weak (k : Kernel) : StrictWeak (priorityCmp k) where
  asymm := by
    intro a b h
    simp only [priorityCmp, decide_eq_true_eq, decide_eq_false_iff_not] at h ⊢
    omega
  negTrans := by
    intro a b c
    simp only [priorityCmp, decide_eq_false_iff_not]
    omega

theorem durationCmp_weak (k : Kernel) : StrictWeak (durationCmp k) where
  asymm := by
    intro a b h
    simp only [durationCmp, decide_eq_true_eq, decide_eq_false_iff_not] at h ⊢
    omega
  negTrans := by
    intro a b c
    simp only [durationCmp, decide_eq_false_iff_not]
    omega

theorem wakeupCmp_weak (k : Kernel) : StrictWeak (wakeupCmp k) where
  asymm := by
    intro a b h
    simp only [wakeupCmp, decide_eq_true_eq, decide_eq_false_iff_not] at h ⊢
    omega
  negTrans := by
    intro a b c
    simp only [wakeupCmp, decide_eq_false_iff_not]
    omega

theorem listInsertOrdered_perm (less : α → α → Bool) (elem : α) (list : List α) :
    (listInsertOrdered less elem list).Perm (elem :: list) := by
  induction list with
  | nil => exact .refl _
  | cons e rest ih =>
    rw [listInsertOrdered]
    split
    · exact .refl _
    · exact (ih.cons e).trans (.swap elem e rest)

/-- Inserting keeps an order that agrees with the comparison: elements the new one is not
less than stay in front of it. -/
theorem listInsertOrdered_pairwise {less : α → α → Bool} {order : α → α → Prop} {elem : α}
    {list : List α} (sorted : list.Pairwise order)
    (smaller : ∀ e ∈ list, less elem e = true → order elem e)
    (larger : ∀ e ∈ list, less elem e = false → order e elem)
    (trans : ∀ e ∈ list, ∀ later ∈ list, less elem e = true → order e later → order elem later) :
    (listInsertOrdered less elem list).Pairwise order := by
  induction list with
  | nil => simp [listInsertOrdered]
  | cons e rest ih =>
    obtain ⟨first, sortedRest⟩ := pairwise_cons.mp sorted
    rw [listInsertOrdered]
    split
    · rename_i before
      refine pairwise_cons.mpr ⟨fun later member => ?_, sorted⟩
      rcases mem_cons.mp member with rfl | member
      · exact smaller later mem_cons_self before
      · exact trans e mem_cons_self later (mem_cons_of_mem e member) before
          (first later member)
    · rename_i notBefore
      refine pairwise_cons.mpr ⟨fun later member => ?_, ih sortedRest ?_ ?_ ?_⟩
      · rcases mem_cons.mp ((listInsertOrdered_perm less elem rest).mem_iff.mp member) with
          rfl | member
        · exact larger e mem_cons_self (by simpa using notBefore)
        · exact first later member
      · exact fun x member => smaller x (mem_cons_of_mem e member)
      · exact fun x member => larger x (mem_cons_of_mem e member)
      · exact fun x member y after => trans x (mem_cons_of_mem e member) y
          (mem_cons_of_mem e after)

/-- Where the new element goes. -/
theorem listInsertOrdered_split {less : α → α → Bool} {elem : α} {front back : List α}
    (earlier : ∀ e ∈ front, less elem e = false) (later : ∀ e ∈ back.head?, less elem e = true) :
    listInsertOrdered less elem (front ++ back) = front ++ elem :: back := by
  induction front with
  | nil =>
    cases back with
    | nil => rfl
    | cons e rest => exact if_pos (later e rfl)
  | cons e rest ih =>
    rw [cons_append, listInsertOrdered, if_neg (by simp [earlier e mem_cons_self]),
      ih fun x member => earlier x (mem_cons_of_mem e member)]
    rfl

theorem listSort_perm (less : α → α → Bool) (list : List α) :
    (listSort less list).Perm list := naturalSort_perm list

end Calendarizador.Source

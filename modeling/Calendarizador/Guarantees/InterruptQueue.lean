import Calendarizador.Foundation.History
import Calendarizador.Invariant.InterruptQueue

/-!
# The interrupt queue

The loops of `intq_getc` and `intq_putc` test their condition before `lock_acquire`, and
`wait` asserts that it still holds afterwards. A thread that had to sleep for the lock has
not tested it since.

As a queue it is right: the bytes between tail and head are those that were put and not yet
returned, in order.
-/
namespace Calendarizador.Guarantees
open Foundation Source Function List

/-! ## Assertions -/

/-- An assertion fails exactly if a thread that slept in `lock_acquire` gets the lock when the
condition it is about to wait for has become true. -/
theorem intq_assertion (q : Intq) (h : Reachable intqSystem q) (e : IntqEvent) :
    q.step e = .error .assertion ↔ ∃ t c, e = .resume t ∧ q.pc t = .retesting c ∧
      q.lock.value ≠ 0 ∧ q.met c.awaits = true := by
  have ok := Intq.reachable_ok h
  constructor
  · intro failed
    rcases ok.step e with disabled | ⟨after, stepped, _⟩ | ⟨_, slept⟩
    · rw [disabled] at failed
      cases failed
    · rw [stepped] at failed
      cases failed
    · exact slept
  · rintro ⟨t, c, rfl, place, free, met⟩
    exact Intq.step_resume_met place free met

/-- A thread that waits alone is woken by the byte it waits for and takes it. -/
theorem intq_assertion_alone : ∃ q, Reachable intqSystem q ∧ q.pc 1 = .woken .getc ∧
    q.step (.resume 1) ≠ .error .assertion := by
  obtain ⟨q, reached, place⟩ := run_holds intqSystem Intq.init rfl
    [.call 1 .getc, .interrupt (.putc 65)] (P := fun q => q.pc 1 = .woken .getc) (by decide +kernel)
  refine ⟨q, reached, place, fun failed => ?_⟩
  obtain ⟨t, c, same, slept, _⟩ := (intq_assertion q reached (.resume 1)).mp failed
  cases same
  rw [place] at slept
  cases slept

/-- Two threads wait in `intq_getc`, the second one for the lock; a handler adds two bytes, and
the first thread takes one of them. -/
def burstRun : List IntqEvent :=
  [.call 1 .getc, .call 2 .getc, .interrupt (.putc 65), .interrupt (.putc 66), .resume 1]

/-- The first thread got its byte; the second one fails the assertion of `wait`. -/
theorem intq_burst : ∃ q, Reachable intqSystem q ∧ q.returned 1 = [65] ∧
    q.pc 2 = .retesting .getc ∧ q.step (.resume 2) = .error .assertion := by
  obtain ⟨q, reached, returned, place, locked, met⟩ := run_holds intqSystem Intq.init rfl burstRun
    (P := fun q => q.returned 1 = [65] ∧ q.pc 2 = .retesting .getc ∧ q.lock.value ≠ 0 ∧
      q.met .notEmpty = true) (by decide +kernel)
  exact ⟨q, reached, returned, place, Intq.step_resume_met place locked met⟩

/-! ## Bytes -/

/-- What the calls did: the bytes put, and the bytes returned with the thread of the call, or
`none` for a handler. -/
structure IntqRecord where
  put : List UInt8
  returned : List (Option Page × UInt8)

/-- The call that gets past its loop in a step, and its thread. -/
def finishes (q : Intq) : IntqEvent → Option (Option Page × IntqCall)
  | .call t c => if q.met c.awaits then some (some t, c) else none
  | .interrupt c => some (none, c)
  | .resume t =>
    match q.pc t with
    | .woken c => if q.met c.awaits then some (some t, c) else none
    | _ => none

def IntqRecord.add (record : IntqRecord) (q : Intq) : Option Page × IntqCall → IntqRecord
  | (who, .getc) => { record with returned := record.returned ++ [(who, q.buf q.tail)] }
  | (_, .putc byte) => { record with put := record.put ++ [byte] }

/-- The queue with a record of the calls that returned. -/
def recordedIntq : System (Intq × IntqRecord) IntqEvent Fault :=
  intqSystem.recording ⟨[], []⟩ fun q e _ record =>
    match finishes q e with
    | none => record
    | some call => record.add q call

/-- What the bytes of a queue are kept in is the same in both states. -/
structure SameBytes (q after : Intq) : Prop where
  buf : after.buf = q.buf
  head : after.head = q.head
  tail : after.tail = q.tail
  returned : after.returned = q.returned

/-- The queue after a call of the thread has moved its byte. -/
def performed (q : Intq) : Option Page × IntqCall → Intq
  | (some t, .getc) => { q.move .getc with
      returned := Function.update q.returned t (q.returned t ++ [q.buf q.tail]) }
  | (_, c) => q.move c

section
variable {q r after : Intq} {t : Page} {c : IntqCall}

theorem SameBytes.refl (q : Intq) : SameBytes q q := ⟨rfl, rfl, rfl, rfl⟩

theorem SameBytes.goto (q : Intq) (t : Page) (place : IntqPc) : SameBytes q (q.goto t place) :=
  ⟨rfl, rfl, rfl, rfl⟩

theorem SameBytes.trans (first : SameBytes q r) (second : SameBytes r after) : SameBytes q after :=
  ⟨second.buf.trans first.buf, second.head.trans first.head, second.tail.trans first.tail,
    second.returned.trans first.returned⟩

theorem SameBytes.met (same : SameBytes q r) (condition : IntqCondition) :
    r.met condition = q.met condition := by
  cases condition with
  | notFull => simp only [Intq.met, Intq.full, same.head, same.tail]
  | notEmpty => simp only [Intq.met, Intq.empty, same.head, same.tail]

theorem SameBytes.performed (same : SameBytes q r) (call : Option Page × IntqCall) :
    SameBytes (performed q call) (performed r call) := by
  obtain ⟨buf, head, tail, returned⟩ := same
  rcases call with ⟨_ | t, _ | byte⟩ <;>
    constructor <;> simp only [Guarantees.performed, Intq.move, buf, head, tail, returned]

theorem sameBytes_unblock (done : q.unblock t = .ok after) : SameBytes q after := by
  unfold Intq.unblock at done
  split at done
  · cases done
    exact ⟨rfl, rfl, rfl, rfl⟩
  · cases done
    exact ⟨rfl, rfl, rfl, rfl⟩
  · cases done

theorem sameBytes_signal {condition : IntqCondition} (done : q.signal condition = .ok after) :
    SameBytes q after := by
  unfold Intq.signal at done
  split at done
  · split at done
    · cases done
      exact .refl q
    · obtain ⟨woken, unblocked, rfl⟩ := map_eq_ok.mp done
      have same := sameBytes_unblock unblocked
      exact ⟨same.buf, same.head, same.tail, same.returned⟩
  · cases done

theorem sameBytes_lockDown (done : q.lockDown t c = .ok after) : SameBytes q after := by
  unfold Intq.lockDown Intq.wait at done
  split at done
  · cases done
    exact ⟨rfl, rfl, rfl, rfl⟩
  · split at done
    · cases done
    · cases done
      exact ⟨rfl, rfl, rfl, rfl⟩

theorem sameBytes_lockRelease (done : q.lockRelease t = .ok after) : SameBytes q after := by
  unfold Intq.lockRelease at done
  split at done
  · split at done
    · cases done
      exact ⟨rfl, rfl, rfl, rfl⟩
    · have same := sameBytes_unblock done
      exact ⟨same.buf, same.head, same.tail, same.returned⟩
  · cases done

/-- A round of the loop moves the byte of the call or goes to sleep. -/
theorem loop_bytes (done : q.loop t c = .ok after) :
    if q.met c.awaits then SameBytes (performed q (some t, c)) after else SameBytes q after := by
  unfold Intq.loop Intq.transfer at done
  split at done
  · next met =>
    rw [if_pos met]
    obtain ⟨moved, signalled, rfl⟩ := map_eq_ok.mp done
    have same := sameBytes_signal signalled
    cases c with
    | putc byte => exact same
    | getc =>
      refine ⟨same.buf, same.head, same.tail, ?_⟩
      simp only [same.returned]
      rfl
  · next unmet =>
    rw [if_neg unmet]
    unfold Intq.lockAcquire at done
    split at done
    · cases done
    · exact sameBytes_lockDown done

/-- A step moves the byte of the call that finishes, and no other one. -/
theorem step_bytes {e : IntqEvent} (taken : q.step e = .ok after) : match finishes q e with
    | none => SameBytes q after
    | some call => q.met call.2.awaits = true ∧ SameBytes (performed q call) after := by
  cases e with
  | call t c =>
    simp only [Intq.step] at taken
    split at taken
    · have bytes := loop_bytes taken
      by_cases met : q.met c.awaits = true
      · simp only [finishes, if_pos met] at bytes ⊢
        exact ⟨met, bytes⟩
      · simp only [finishes, if_neg met] at bytes ⊢
        exact bytes
    · cases taken
  | interrupt c =>
    simp only [Intq.step] at taken
    split at taken
    · next met =>
      refine ⟨met, ?_⟩
      cases c with
      | getc => exact sameBytes_signal taken
      | putc byte => exact sameBytes_signal taken
    · cases taken
  | resume t =>
    simp only [Intq.step] at taken
    simp only [finishes]
    split at taken
    · next c place =>
      rw [place]
      exact (SameBytes.goto q t .running).trans (sameBytes_lockDown taken)
    · next c place =>
      rw [place]
      obtain ⟨released, unlocked, looped⟩ := bind_eq_ok.mp taken
      have same : SameBytes q released :=
        (SameBytes.goto q t .running).trans (sameBytes_lockRelease unlocked)
      have bytes := loop_bytes looped
      rw [same.met] at bytes
      by_cases met : q.met c.awaits = true
      · simp only [if_pos met] at bytes ⊢
        exact ⟨met, (same.performed _).trans bytes⟩
      · simp only [if_neg met] at bytes ⊢
        exact same.trans bytes
    · cases taken

/-- The number of bytes between tail and head. -/
def storedCount (q : Intq) : Nat := (q.head + intqBufsize - q.tail) % intqBufsize

/-- The unread bytes. -/
def stored (q : Intq) : List UInt8 :=
  (List.range (storedCount q)).map fun i => q.buf ((q.tail + i) % intqBufsize)

theorem SameBytes.stored (same : SameBytes q r) : stored r = stored q := by
  unfold Guarantees.stored storedCount
  rw [same.buf, same.head, same.tail]

/-- The head is not a place of an unread byte. -/
theorem head_free (ok : q.Ok) {i : Nat} (unread : i < storedCount q) :
    (q.tail + i) % intqBufsize ≠ q.head := by
  have head := ok.head
  have tail := ok.tail
  simp only [storedCount, intqBufsize] at unread head tail ⊢
  omega

theorem stored_put (ok : q.Ok) {byte : UInt8} (room : q.met .notFull = true) :
    stored (q.move (.putc byte)) = stored q ++ [byte] := by
  have head := ok.head
  have tail := ok.tail
  have apart := Intq.met_notFull.mp room
  have count : storedCount (q.move (.putc byte)) = storedCount q + 1 := by
    simp only [storedCount, Intq.move, Intq.next, intqBufsize] at head tail apart ⊢
    omega
  have last : (q.tail + storedCount q) % intqBufsize = q.head := by
    simp only [storedCount, intqBufsize] at head tail ⊢
    omega
  unfold stored
  rw [count, range_succ, map_append]
  congr 1
  · apply map_congr_left
    intro i unread
    exact update_of_ne (head_free ok (mem_range.mp unread)) _ _
  · simp only [map_cons, map_nil, Intq.move, last, update_self]

theorem stored_get (ok : q.Ok) (some_ : q.met .notEmpty = true) :
    stored q = q.buf q.tail :: stored (q.move .getc) := by
  have head := ok.head
  have tail := ok.tail
  have apart := Intq.met_notEmpty.mp some_
  have count : storedCount q = storedCount (q.move .getc) + 1 := by
    simp only [storedCount, Intq.move, Intq.next, intqBufsize] at head tail apart ⊢
    omega
  unfold stored
  rw [count, range_succ_eq_map, map_cons, map_map]
  congr 1
  · rw [Nat.add_zero, Nat.mod_eq_of_lt tail]
  · apply map_congr_left
    intro i _
    simp only [Function.comp, Intq.move, Intq.next, intqBufsize]
    congr 1
    omega

/-- The record agrees with the queue. -/
structure BytesRecorded (q : Intq) (record : IntqRecord) : Prop where
  bytes : record.put = record.returned.map Prod.snd ++ stored q
  threads : ∀ t, q.returned t =
    (record.returned.filter fun entry => entry.1 = some t).map Prod.snd

theorem BytesRecorded.same {record : IntqRecord} (h : BytesRecorded q record)
    (same : SameBytes q after) : BytesRecorded after record := by
  refine ⟨?_, fun t => ?_⟩
  · rw [same.stored]
    exact h.bytes
  · rw [same.returned]
    exact h.threads t

theorem BytesRecorded.performed {record : IntqRecord} (h : BytesRecorded q record) (ok : q.Ok)
    {call : Option Page × IntqCall} (met : q.met call.2.awaits = true) :
    BytesRecorded (performed q call) (record.add q call) := by
  obtain ⟨who, c⟩ := call
  cases c with
  | putc byte =>
    have same : Guarantees.performed q (who, .putc byte) = q.move (.putc byte) := by
      cases who <;> rfl
    rw [same]
    refine ⟨?_, h.threads⟩
    rw [stored_put ok met, ← append_assoc]
    exact congrArg (· ++ [byte]) h.bytes
  | getc =>
    constructor
    · have same : stored (Guarantees.performed q (who, .getc)) = stored (q.move .getc) := by
        cases who <;> rfl
      rw [same]
      simp only [IntqRecord.add, map_append, map_cons, map_nil, append_assoc,
        singleton_append]
      rw [← stored_get ok met]
      exact h.bytes
    · intro u
      simp only [IntqRecord.add, filter_append, map_append, ← h.threads u]
      cases who with
      | none => simp [Guarantees.performed, Intq.move]
      | some t =>
        by_cases here : u = t
        · simp [Guarantees.performed, here]
        · simp [Guarantees.performed, here, Ne.symm here]

theorem intq_recorded {s : Intq × IntqRecord} (h : Reachable recordedIntq s) :
    Reachable intqSystem s.1 ∧ BytesRecorded s.1 s.2 := by
  apply Reachable.recorded (P := BytesRecorded) _ _ h
  · intro q start
    cases start
    exact ⟨rfl, fun t => rfl⟩
  · intro q record e after reached recorded taken
    have bytes := step_bytes taken
    cases finished : finishes q e with
    | none =>
      rw [finished] at bytes
      exact recorded.same bytes
    | some call =>
      simp only [finished] at bytes ⊢
      exact (recorded.performed (Intq.reachable_ok reached) bytes.1).same bytes.2

end

/-- After every run the bytes returned are the first of the bytes put, in order, and the bytes
each thread got are its share of them; head and tail are places of the buffer, the difference
of the two counts is the distance from tail to head, below the size, and no step changes a byte
that has not been read. -/
theorem intq_fifo (s : Intq × IntqRecord) (h : Reachable recordedIntq s) :
    s.2.returned.map Prod.snd <+: s.2.put ∧
    (∀ t, s.1.returned t =
      (s.2.returned.filter fun entry => entry.1 = some t).map Prod.snd) ∧
    s.1.head < intqBufsize ∧ s.1.tail < intqBufsize ∧
    (s.2.put.length : Int) - s.2.returned.length = ((s.1.head : Int) - s.1.tail) % intqBufsize ∧
    s.2.put.length - s.2.returned.length ≤ intqBufsize - 1 ∧
    ∀ e after, s.1.step e = .ok after →
      ∀ i < s.2.put.length - s.2.returned.length,
        after.buf ((s.1.tail + i) % intqBufsize) = s.1.buf ((s.1.tail + i) % intqBufsize) := by
  obtain ⟨reached, recorded⟩ := intq_recorded h
  have ok := Intq.reachable_ok reached
  have length : s.2.put.length = s.2.returned.length + storedCount s.1 := by
    rw [recorded.bytes, length_append, length_map, stored, length_map,
      length_range]
  have count : s.2.put.length - s.2.returned.length = storedCount s.1 := by omega
  have head := ok.head
  have tail := ok.tail
  refine ⟨⟨stored s.1, recorded.bytes.symm⟩, recorded.threads, head, tail, ?_, ?_, ?_⟩
  · simp only [storedCount, intqBufsize] at length head tail ⊢
    omega
  · simp only [storedCount, intqBufsize] at length ⊢
    omega
  · intro e after taken i unread
    rw [count] at unread
    have bytes := step_bytes taken
    cases finished : finishes s.1 e with
    | none =>
      rw [finished] at bytes
      rw [bytes.buf]
    | some call =>
      simp only [finished] at bytes
      rw [bytes.2.buf]
      rcases call with ⟨_ | t, _ | byte⟩
      · rfl
      · exact update_of_ne (head_free ok unread) _ _
      · rfl
      · exact update_of_ne (head_free ok unread) _ _

/-- A handler puts two bytes and a thread takes the first one. -/
theorem intq_fifo_two : ∃ s, Reachable recordedIntq s ∧ s.2.put = [65, 66] ∧
    s.2.returned = [(some 1, 65)] ∧ s.1.head = 2 ∧ s.1.tail = 1 ∧ s.1.returned 1 = [65] := by
  obtain ⟨s, reached, put, returned, head, tail⟩ := run_holds recordedIntq
    (Intq.init, ⟨[], []⟩) ⟨rfl, rfl⟩
    [.interrupt (.putc 65), .interrupt (.putc 66), .call 1 .getc] (P := fun s =>
      s.2.put = [65, 66] ∧ s.2.returned = [(some 1, 65)] ∧ s.1.head = 2 ∧ s.1.tail = 1)
    (by decide +kernel)
  refine ⟨s, reached, put, returned, head, tail, ?_⟩
  rw [(intq_fifo s reached).2.1 1, returned]
  decide

end Calendarizador.Guarantees

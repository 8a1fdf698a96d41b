/-
Hints under calls.

Two calls change a hint: one takes a word into its parity, the other pins its trace to an index.
They do not get in each other's way, and of several points only the last one counts.  Whatever has
been called, the hint stays a thread through all chunks:

* **`Hint.Call`**, **`Hint.after`** — calls, and the hint that they leave;
* **`Hint.trace_after`** — its trace is that of the key, with one entry replaced if it was ever
  pinned;
* **`Hint.parity_after`** — its parity is that of the words taken in, in whichever order;
* **`Hint.Threads`** — one element in every chunk, at the offset that the trace has there
  (`Hint.threads`);
* **`Hint.programming`** — all of this for every hint that calls can lead to.
-/
import Mathlib.Data.Multiset.Fold
import PrivateRetrieval.Prf.Literal
import PrivateRetrieval.Proofs.CheckedClient

namespace PrivateRetrieval.Hint

variable {K : Type}

/-! ### Calls -/

/-- A call that changes a hint. -/
inductive Call where
  | xorParity (word : UInt64)
  | program (index : Nat)

namespace Call

/-- What a call makes of a hint. -/
def act (hint : Hint K) : Call → Hint K
  | xorParity word => hint.xorParity word
  | program index => hint.program index

/-- The words that are taken in, in the order of the calls. -/
def words : List Call → List UInt64
  | [] => []
  | xorParity word :: rest => word :: words rest
  | program _ :: rest => words rest

/-- The indices to which the trace is pinned, in the order of the calls. -/
def points : List Call → List Nat
  | [] => []
  | xorParity _ :: rest => points rest
  | program index :: rest => index :: points rest

theorem points_append (front back : List Call) :
    points (front ++ back) = points front ++ points back := by
  induction front with
  | nil => rfl
  | cons call front ih =>
    cases call with
    | xorParity word => exact ih
    | program index => exact congrArg (index :: ·) ih

end Call

/-- The hint that calls leave, of which the first is made first. -/
def after (hint : Hint K) : List Call → Hint K
  | [] => hint
  | call :: rest => (call.act hint).after rest

theorem key_after (hint : Hint K) (calls : List Call) : (hint.after calls).key = hint.key := by
  induction calls generalizing hint with
  | nil => rfl
  | cons call rest ih =>
    rw [after, ih]
    cases call <;> rfl

/-- Of several points the last one counts. -/
theorem point_after (hint : Hint K) (calls : List Call) :
    (hint.after calls).point = (Call.points calls).getLast?.or hint.point := by
  induction calls generalizing hint with
  | nil => rfl
  | cons call rest ih =>
    rw [after, ih]
    cases call with
    | xorParity word => rfl
    | program index =>
      rw [Call.points, List.getLast?_cons]
      cases (Call.points rest).getLast? <;> rfl

/-- The exclusive or of words, which have no order. -/
def exclusiveOr (words : Multiset UInt64) : UInt64 := words.fold (· ^^^ ·) 0

theorem exclusiveOr_cons (word : UInt64) (words : Multiset UInt64) :
    exclusiveOr (word ::ₘ words) = word ^^^ exclusiveOr words :=
  Multiset.fold_cons_left ..

theorem parity_after (hint : Hint K) (calls : List Call) :
    (hint.after calls).parity = hint.parity ^^^ exclusiveOr (Call.words calls) := by
  induction calls generalizing hint with
  | nil => exact UInt64.xor_zero.symm
  | cons call rest ih =>
    rw [after, ih]
    cases call with
    | xorParity word =>
      rw [Call.words, ← Multiset.cons_coe, exclusiveOr_cons, ← UInt64.xor_assoc]
      rfl
    | program index => rfl

/-! ### Traces -/

variable [Prf K]

/-- The offsets that a key picks in all chunks. -/
def keyTrace (key : K) (chunkCount chunkSize : Nat) : List Nat :=
  (List.range chunkCount).map (keyOffset key · chunkSize)

theorem trace_of_unprogrammed {hint : Hint K} (free : hint.point = none)
    (chunkCount chunkSize : Nat) :
    hint.trace chunkCount chunkSize = keyTrace hint.key chunkCount chunkSize :=
  List.map_congr_left fun chunk _ => offsetAt_of_unprogrammed free chunk chunkSize

/-- A point replaces the entry of its own chunk. -/
theorem trace_of_point {hint : Hint K} {point : Nat} (pinned : hint.point = some point)
    (chunkCount chunkSize : Nat) :
    hint.trace chunkCount chunkSize
      = (keyTrace hint.key chunkCount chunkSize).set (point / chunkSize) (point % chunkSize) := by
  refine List.ext_getElem (by simp [trace, keyTrace]) fun chunk _ _ => ?_
  rw [List.getElem_set]
  simp only [trace, keyTrace, List.getElem_map, List.getElem_range, offsetAt, pinned]

theorem trace_after (key : K) (calls : List Call) (chunkCount chunkSize : Nat) :
    (after { key } calls).trace chunkCount chunkSize
      = match (Call.points calls).getLast? with
        | none => keyTrace key chunkCount chunkSize
        | some index =>
          (keyTrace key chunkCount chunkSize).set (index / chunkSize) (index % chunkSize) := by
  have kept : (after { key } calls).key = key := key_after { key } calls
  have point := point_after { key } calls
  cases last : (Call.points calls).getLast? with
  | none =>
    rw [last] at point
    rw [trace_of_unprogrammed point, kept]
  | some index =>
    rw [last] at point
    rw [trace_of_point point, kept]

/-- The indices at which the trace passes through all chunks. -/
def elements (hint : Hint K) (chunkCount chunkSize : Nat) : List Nat :=
  (List.range chunkCount).map (hint.elementAt · chunkSize)

/-- One element in every chunk, where the offset of the trace puts it. -/
structure Threads (hint : Hint K) (chunkCount chunkSize : Nat) : Prop where
  offset_lt : ∀ chunk, hint.offsetAt chunk chunkSize < chunkSize
  element_eq : ∀ chunk,
    hint.elementAt chunk chunkSize = chunk * chunkSize + hint.offsetAt chunk chunkSize
  inside : ∀ chunk, hint.elementAt chunk chunkSize / chunkSize = chunk
  /-- The first element lies in the first chunk, the next in the next, and so on. -/
  one_each : (hint.elements chunkCount chunkSize).map (· / chunkSize) = List.range chunkCount
  offsets : (hint.elements chunkCount chunkSize).map (· % chunkSize)
    = hint.trace chunkCount chunkSize
  /-- All of it is computed in words, if the element is one. -/
  computed : ∀ chunk, Checked.offsetAt hint chunk chunkSize = .ok (hint.offsetAt chunk chunkSize)
    ∧ (chunk * chunkSize + hint.offsetAt chunk chunkSize < UInt64.size →
      Checked.elementAt hint chunk chunkSize
        = .ok (chunk * chunkSize + hint.offsetAt chunk chunkSize))
  traced : Checked.trace hint chunkCount chunkSize = .ok (hint.trace chunkCount chunkSize)

theorem threads (hint : Hint K) {chunkSize : Nat} (pos : 0 < chunkSize) (chunkCount : Nat) :
    hint.Threads chunkCount chunkSize where
  offset_lt := hint.offsetAt_lt pos
  element_eq chunk := hint.elementAt_eq chunk chunkSize
  inside := hint.elementAt_div pos
  one_each := by
    rw [elements, List.map_map]
    exact (List.map_congr_left fun chunk _ => hint.elementAt_div pos chunk).trans (List.map_id _)
  offsets := by
    rw [elements, List.map_map]
    exact List.map_congr_left fun chunk _ => (offsetAt_of_elementAt rfl pos).symm
  computed chunk := by
    refine ⟨Checked.offsetAt_eq hint chunk pos, fun fits => ?_⟩
    rw [Checked.elementAt_eq hint pos fits, hint.elementAt_eq]
  traced := Checked.trace_eq hint chunkCount pos

/-- **Programming.**  A hint that any calls lead to has one element in every chunk.  Its trace is
that of its key, but for the chunk of the last point, and its parity is that of the words that
were taken in: neither their order nor the points have a part in it. -/
theorem programming (key : K) (calls : List Call) {chunkSize : Nat} (pos : 1 ≤ chunkSize)
    (chunkCount : Nat) :
    let hint := after { key } calls
    hint.Threads chunkCount chunkSize
    ∧ (Call.points calls = [] →
      hint.trace chunkCount chunkSize = keyTrace key chunkCount chunkSize)
    ∧ (∀ {earlier later : List Call} {index : Nat},
      calls = earlier ++ .program index :: later → Call.points later = [] →
        hint.trace chunkCount chunkSize
            = (keyTrace key chunkCount chunkSize).set (index / chunkSize) (index % chunkSize)
          ∧ (chunkCount ≤ index / chunkSize →
            hint.trace chunkCount chunkSize = keyTrace key chunkCount chunkSize))
    ∧ hint.parity = exclusiveOr (Call.words calls)
    ∧ ∀ (key' : K) (calls' : List Call),
      (Call.words calls : Multiset UInt64) = Call.words calls' →
        (after { key := key' } calls').parity = hint.parity := by
  have parity (key : K) (calls : List Call) :
      (after { key } calls).parity = exclusiveOr (Call.words calls) :=
    (parity_after { key } calls).trans UInt64.zero_xor
  refine ⟨threads _ pos chunkCount, fun never => ?_, fun {earlier later index} split last => ?_,
    parity key calls, fun key' calls' same => ?_⟩
  · rw [trace_after, never]
    rfl
  · have points : (Call.points calls).getLast? = some index := by
      rw [split, Call.points_append, Call.points, last, List.getLast?_concat]
    have pinned : (after { key } calls).trace chunkCount chunkSize
        = (keyTrace key chunkCount chunkSize).set (index / chunkSize) (index % chunkSize) := by
      rw [trace_after, points]
    refine ⟨pinned, fun outside => ?_⟩
    rw [pinned, List.set_eq_of_length_le (by simpa [keyTrace] using outside)]
  · rw [parity, parity, same]

/-- A hint that was pinned twice, in two chunks, and took in words before each. -/
theorem programming_of_two_points :
    let hint := after { key := (⟨[1, 2, 0, 3]⟩ : LiteralKey) }
      [.xorParity 10, .program 3, .xorParity 6, .program 10]
    1 ≤ 4 ∧ hint.trace 4 4 = [1, 2, 2, 3] ∧ hint.trace 2 4 = [1, 2]
      ∧ (hint.elements 4 4).map (· / 4) = [0, 1, 2, 3] ∧ Checked.elementAt hint 2 4 = .ok 10
      ∧ (after { key := (⟨[]⟩ : LiteralKey) }
        [.program 5, .xorParity 6, .xorParity 10]).parity = hint.parity := by
  have pos : 1 ≤ 4 := by decide
  have split : ([.xorParity 10, .program 3, .xorParity 6, .program 10] : List Call)
      = [.xorParity 10, .program 3, .xorParity 6] ++ .program 10 :: [] := rfl
  obtain ⟨threads, -, pinned, -, order⟩ := programming (⟨[1, 2, 0, 3]⟩ : LiteralKey)
    [.xorParity 10, .program 3, .xorParity 6, .program 10] pos 4
  -- With two chunks the point lies past the last one.
  obtain ⟨-, -, short, -⟩ := programming (⟨[1, 2, 0, 3]⟩ : LiteralKey)
    [.xorParity 10, .program 3, .xorParity 6, .program 10] pos 2
  refine ⟨pos, (pinned split rfl).1.trans (by decide),
    ((short split rfl).2 (by decide)).trans (by decide), threads.one_each,
    (threads.computed 2).2 (by decide), order _ _ ?_⟩
  exact Multiset.coe_eq_coe.mpr (List.Perm.swap 6 10 [])

end PrivateRetrieval.Hint

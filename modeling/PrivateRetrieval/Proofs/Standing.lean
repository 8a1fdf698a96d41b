/-
Sessions between two builds.

Until the tables are built afresh some things only ever go one way: an empty slot
stays empty, the counters of used backup hints grow, and a word that is kept
stays kept.  A change that shows in the history of a run so shows in every later
state:

* **`Peer.standing`** — a peer that sends no stream for a build
  (`Client.path_standing`);
* **`Client.Change.empty`**, **`Client.Change.used_le_used`**, **`Client.Change.known`** —
  what one change cannot undo;
* **`Client.Path.kept`** — nor can a path.
-/
import PrivateRetrieval.Proofs.Consistency

namespace PrivateRetrieval

variable {σ K : Type}

/-- A peer that may answer as it likes, but sends no stream that is read to its end. -/
def Peer.standing : Peer σ K := ⟨fun _ _ _ => True, fun _ => False⟩

namespace Client

variable [Prf K] [KeySource σ K] {client after : Client σ K} {marks : List Milestone}

theorem path_standing [RandomSource σ] {run : List Operation}
    (standing : ∀ stream, .built stream ∉ client.history run) :
    Path Peer.standing client (client.history run) (client.after run) := by
  refine path_after ?_
  induction run generalizing client with
  | nil => trivial
  | cons operation rest ih =>
    refine ⟨?_, ih fun stream built => standing stream (List.mem_append_right _ built)⟩
    cases operation with
    | rebuild stream =>
      intro ended
      refine standing stream (List.mem_append_left _ ?_)
      rw [Operation.milestones, ended]
      exact List.mem_singleton_self _
    | _ => simp [Operation.Supplied, Takes, Peer.standing]

/-- An empty slot stays empty: a backup hint only goes where the pending query has
its hint. -/
theorem Change.empty (change : Change Peer.standing client marks after)
    (consistent : client.Consistent) {slot : Nat} (empty : client.tables.hint? slot = none) :
    after.tables.hint? slot = none := by
  cases change with
  | draw source => exact empty
  | select selects => exact empty
  | @refresh query word hint position pending next left =>
    obtain ⟨taken, held, -⟩ := (consistent.awaits pending).held
    -- The pending query has a hint in its slot.
    have elsewhere : slot ≠ query.slot := by
      rintro rfl
      exact absurd (held.symm.trans empty) (by simp)
    rw [hint?_refreshed held, if_neg elsewhere]
    exact empty
  | exhaust pending next left =>
    refine (Tables.hint?_retire _ _ slot).trans ?_
    rw [empty, ite_self]
  | discard pending =>
    refine (Tables.hint?_retire _ _ slot).trans ?_
    rw [empty, ite_self]
  | rebuild built sent => exact sent.elim

theorem Change.used_le_used (change : Change Peer.standing client marks after)
    (consistent : client.Consistent) (chunk : Nat) : client.used chunk ≤ after.used chunk := by
  cases change with
  | refresh pending next left =>
    have within := (consistent.awaits pending).chunk_lt consistent.valid
    rw [← consistent.consumed_length] at within
    rw [used_refreshed within]
    split
    · exact Nat.le_succ _
    · exact Nat.le_refl _
  | rebuild built sent => exact sent.elim
  | _ => exact Nat.le_refl _

theorem Change.known {peer : Peer σ K} (change : Change peer client marks after) {index : Nat}
    (known : (client.cached index).isSome) : (after.cached index).isSome := by
  have inserted (own : Nat) (word : UInt64) :
      ((client.cache.insert own word).get? index).isSome := by
    rw [Cache.get?_insert]
    split
    · rfl
    · exact known
  cases change with
  | refresh pending next left => exact inserted _ _
  | exhaust pending next left => exact inserted _ _
  | _ => exact known

/-- What no change undoes in a consistent session, no path undoes. -/
theorem Path.kept {peer : Peer σ K} {P : Client σ K → Prop} {first last : Client σ K}
    {history : List Milestone} (path : Path peer first history last)
    (consistent : first.Consistent)
    (kept : ∀ {before after : Client σ K} {marks : List Milestone},
      Change peer before marks after → before.Consistent → P before → P after)
    (start : P first) : last.Consistent ∧ P last :=
  path.invariant (P := fun found => found.Consistent ∧ P found)
    (fun change both => ⟨change.consistent both.1, kept change both.1 both.2⟩) ⟨consistent, start⟩

theorem Path.empty {first last : Client σ K} {history : List Milestone}
    (path : Path Peer.standing first history last) (consistent : first.Consistent) {slot : Nat}
    (empty : first.tables.hint? slot = none) : last.tables.hint? slot = none :=
  (path.kept (P := fun found => found.tables.hint? slot = none) consistent
    (fun change consistent empty => change.empty consistent empty) empty).2

theorem Path.used_le_used {first last : Client σ K} {history : List Milestone}
    (path : Path Peer.standing first history last) (consistent : first.Consistent) (chunk : Nat) :
    first.used chunk ≤ last.used chunk :=
  (path.kept (P := fun found => first.used chunk ≤ found.used chunk) consistent
    (fun change consistent le => Nat.le_trans le (change.used_le_used consistent chunk))
    (Nat.le_refl _)).2

end Client

end PrivateRetrieval

/-
The offline phase: what fresh tables hold.

All keys are drawn first, in one run: those of the primary hints and then those
of the backup hints, group by group.  The stream then adds to every hint the
words on its trace, the chunk of its group left out:

* **`keyAt`** — the key drawn at a position of the run;
* **`Tables.hint?_draw`**, **`Tables.backup?_draw`** — which key lies where;
* **`Tables.Covers`** — the parities after so many chunks, the invariant of the
  pass over the stream (`Tables.Covers.absorb`);
* **`Tables.Built`** — what a build leaves behind (`Tables.built_of_absorbStream`).
-/
import PrivateRetrieval.Proofs.Tables
import PrivateRetrieval.Proofs.Chunking
import PrivateRetrieval.Proofs.Parity

namespace PrivateRetrieval

variable {σ K : Type}

/-! ### Keys in the order in which they are drawn -/

section Draw

variable [KeySource σ K]

/-- The source after `count` keys have been drawn. -/
def skipKeys (K : Type) [KeySource σ K] : (count : Nat) → σ → σ
  | 0, source => source
  | count + 1, source => skipKeys K count (KeySource.drawKey (K := K) source).2

/-- The key drawn at a position, counted from zero. -/
def keyAt (source : σ) (position : Nat) : K :=
  (KeySource.drawKey (skipKeys K position source)).1

theorem skipKeys_add (source : σ) (first second : Nat) :
    skipKeys K (first + second) source = skipKeys K second (skipKeys K first source) := by
  induction first generalizing source with
  | zero => rw [Nat.zero_add, skipKeys]
  | succ first ih => rw [Nat.succ_add, skipKeys, skipKeys, ih]

theorem keyAt_skipKeys (source : σ) (first second : Nat) :
    keyAt (K := K) (skipKeys K first source) second = keyAt source (first + second) := by
  rw [keyAt, keyAt, skipKeys_add]

theorem drawHints_source (count : Nat) (source : σ) :
    (drawHints (K := K) count source).2 = skipKeys K count source := by
  induction count generalizing source with
  | zero => rfl
  | succ count ih => exact ih _

theorem drawHints_eq (count : Nat) (source : σ) :
    (drawHints (K := K) count source).1
      = (List.range count).map fun position => some { key := keyAt source position } := by
  induction count generalizing source with
  | zero => rfl
  | succ count ih =>
    rw [List.range_succ_eq_map, List.map_cons, List.map_map, drawHints, ih]
    rfl

theorem drawGroups_eq (size count : Nat) (source : σ) :
    (drawGroups (K := K) size count source).1
      = (List.range count).map fun group =>
          (drawHints size (skipKeys K (group * size) source)).1 := by
  induction count generalizing source with
  | zero => rfl
  | succ count ih =>
    -- The first group has the source as it is, and moves it on for all others.
    rw [List.range_succ_eq_map, List.map_cons, List.map_map, drawGroups, ih, Nat.zero_mul]
    refine List.cons_eq_cons.mpr ⟨rfl, List.map_congr_left fun group _ => ?_⟩
    dsimp only [Function.comp_apply]
    rw [drawHints_source, ← skipKeys_add, Nat.succ_mul, Nat.add_comm]

theorem drawGroups_source (size count : Nat) (source : σ) :
    (drawGroups (K := K) size count source).2 = skipKeys K (count * size) source := by
  induction count generalizing source with
  | zero => rw [Nat.zero_mul, drawGroups, skipKeys]
  | succ count ih =>
    rw [drawGroups, ih, drawHints_source, ← skipKeys_add, Nat.succ_mul, Nat.add_comm]

namespace Tables

theorem draw_source (p : Params) (source : σ) :
    (draw (K := K) p source).2 = skipKeys K (p.primaryCount + p.backupCount) source := by
  rw [draw, drawGroups_source, drawHints_source, ← skipKeys_add, Params.backupCount, Nat.mul_comm]

theorem hint?_draw (p : Params) (source : σ) (slot : Nat) :
    (draw (K := K) p source).1.hint? slot
      = if slot < p.primaryCount then some { key := keyAt source slot } else none := by
  rw [hint?, draw, drawHints_eq, List.getElem?_map]
  split
  · rename_i within
    rw [List.getElem?_range within]
    rfl
  · rename_i past
    rw [List.getElem?_eq_none (by rw [List.length_range]; omega)]
    rfl

theorem backup?_draw (p : Params) (source : σ) (group position : Nat) :
    (draw (K := K) p source).1.backup? group position
      = if group < p.chunkCount ∧ position < p.backupsPerChunk then
          some { key := keyAt source (p.primaryCount + group * p.backupsPerChunk + position) }
        else none := by
  rw [backup?, draw, drawGroups_eq, List.getElem?_map]
  by_cases inGroups : group < p.chunkCount
  · rw [List.getElem?_range inGroups, Option.map_some, Option.bind_some, drawHints_eq,
      List.getElem?_map]
    by_cases inGroup : position < p.backupsPerChunk
    · rw [List.getElem?_range inGroup, if_pos ⟨inGroups, inGroup⟩, drawHints_source,
        ← skipKeys_add]
      simp only [Option.map_some, Option.join_some, keyAt_skipKeys]
    · rw [List.getElem?_eq_none (by rw [List.length_range]; omega),
        if_neg fun both => inGroup both.2]
      rfl
  · rw [List.getElem?_eq_none (by rw [List.length_range]; omega),
      if_neg fun both => inGroups both.1]
    rfl

theorem length_primary_draw (p : Params) (source : σ) :
    (draw (K := K) p source).1.primary.length = p.primaryCount := by
  rw [draw, drawHints_eq, List.length_map, List.length_range]

theorem length_backups_draw (p : Params) (source : σ) :
    (draw (K := K) p source).1.backups.length = p.chunkCount := by
  rw [draw, drawGroups_eq, List.length_map, List.length_range]

theorem bare_draw (p : Params) (source : σ) :
    (draw (K := K) p source).1.bare = (draw p source).1 := by
  rw [bare, draw, drawHints_eq, drawGroups_eq, List.map_map, List.map_map]
  refine Tables.mk.injEq _ _ _ _ |>.mpr ⟨rfl, List.map_congr_left fun group _ => ?_⟩
  rw [Function.comp_apply, drawHints_eq, List.map_map]
  rfl

end Tables

end Draw

/-! ### Parities after the stream -/

/-- The word at an offset of a chunk of a stream. -/
def wordIn (stream : List Chunk) (chunk offset : Nat) : UInt64 :=
  (stream.getD chunk []).getD offset 0

variable [Prf K]

/-- The word that a hint meets in a chunk of a stream. -/
def Hint.wordOn (hint : Hint K) (stream : List Chunk) (chunkSize chunk : Nat) : UInt64 :=
  wordIn stream chunk (hint.offsetAt chunk chunkSize)

namespace Tables

variable {p : Params} {stream : List Chunk} {t t' : Tables K}

/-- Every parity is that of the first `count` chunks of the stream; a backup hint
leaves out the chunk of its group. -/
structure Covers (p : Params) (stream : List Chunk) (count : Nat) (t : Tables K) : Prop where
  primary : ∀ {slot : Nat} {hint : Hint K}, t.hint? slot = some hint →
    hint.parity = xorBelow (hint.wordOn stream p.chunkSize) count
  backup : ∀ {group position : Nat} {hint : Hint K}, t.backup? group position = some hint →
    hint.parity = xorExcept (hint.wordOn stream p.chunkSize) count group

theorem hint?_absorbPrimary (p : Params) (chunk : Nat) (words : Chunk) (t : Tables K)
    (backups : List (List (Slot K))) (slot : Nat) :
    (Tables.mk (absorbPrimary p chunk words t.primary) backups).hint? slot
      = (t.hint? slot).map (·.absorb chunk words p.chunkSize) := by
  rw [hint?, hint?, absorbPrimary, List.getElem?_map]
  cases t.primary[slot]? with
  | none => rfl
  | some held => rfl

theorem backup?_absorbBackups (p : Params) (chunk : Nat) (words : Chunk) (t : Tables K)
    (primary : List (Slot K)) (group position : Nat) :
    (Tables.mk primary (absorbBackups p chunk words t.backups)).backup? group position
      = (t.backup? group position).map fun hint =>
          if group = chunk then hint else hint.absorb chunk words p.chunkSize := by
  rw [backup?, backup?, absorbBackups, List.getElem?_mapIdx]
  cases t.backups[group]? with
  | none => rfl
  | some slots =>
    simp only [Option.map_some, Option.bind_some]
    split
    · simp only [Option.map_id_fun', id_eq]
    · rw [List.getElem?_map]
      cases slots[position]? with
      | none => rfl
      | some held => rfl

theorem Covers.absorb {chunk : Nat} {words : Chunk} (covers : t.Covers p stream chunk)
    (here : stream[chunk]? = some words) (h : t.absorb p chunk words = .ok t') :
    t'.Covers p stream (chunk + 1) := by
  have word (hint : Hint K) :
      words.getD (hint.offsetAt chunk p.chunkSize) 0 = hint.wordOn stream p.chunkSize chunk := by
    rw [Hint.wordOn, wordIn, List.getD_eq_getElem?_getD (l := stream), here, Option.getD_some]
  rw [absorb_of_ok h]
  constructor
  · intro slot hint held
    rw [hint?_absorbPrimary, Option.map_eq_some_iff] at held
    obtain ⟨before, held, rfl⟩ := held
    rw [xorBelow, ← word]
    exact congrArg (· ^^^ _) (covers.primary held)
  · intro group position hint held
    rw [backup?_absorbBackups, Option.map_eq_some_iff] at held
    obtain ⟨before, held, rfl⟩ := held
    rw [xorExcept_succ]
    -- The group of the chunk takes nothing in, and its sum leaves the chunk out.
    by_cases own : group = chunk
    · rw [if_pos own, if_pos own.symm, UInt64.xor_zero]
      exact covers.backup held
    · rw [if_neg own, if_neg (Ne.symm own), ← word]
      exact congrArg (· ^^^ _) (covers.backup held)

/-- What a build over a stream leaves behind: the drawn hints, each with the
parity of its trace. -/
structure Built [KeySource σ K] (p : Params) (source : σ) (stream : List Chunk) (t : Tables K) :
    Prop where
  bare : t.bare = (draw p source).1
  covers : t.Covers p stream p.chunkCount
  length : stream.length = p.chunkCount
  lengths : ∀ words ∈ stream, words.length = p.chunkSize

namespace Built

variable [KeySource σ K] {source : σ}

theorem primary_length (built : t.Built p source stream) : t.primary.length = p.primaryCount := by
  rw [← length_primary_draw (K := K) p source, ← built.bare, Tables.bare, List.length_map]

theorem backups_length (built : t.Built p source stream) : t.backups.length = p.chunkCount := by
  rw [← length_backups_draw (K := K) p source, ← built.bare, Tables.bare, List.length_map]

theorem hint? (built : t.Built p source stream) (slot : Nat) :
    (t.hint? slot).map Hint.bare
      = if slot < p.primaryCount then some { key := keyAt source slot } else none := by
  rw [← hint?_bare, built.bare, hint?_draw]

theorem backup? (built : t.Built p source stream) (group position : Nat) :
    (t.backup? group position).map Hint.bare
      = if group < p.chunkCount ∧ position < p.backupsPerChunk then
          some { key := keyAt source (p.primaryCount + group * p.backupsPerChunk + position) }
        else none := by
  rw [← backup?_bare, built.bare, backup?_draw]

theorem bare_hint (built : t.Built p source stream) {slot : Nat} {hint : Hint K}
    (held : t.hint? slot = some hint) : hint.bare = { key := keyAt source slot } := by
  have image := built.hint? slot
  rw [held] at image
  split at image
  · exact Option.some.inj image
  · exact absurd image (by simp)

theorem bare_backup (built : t.Built p source stream) {group position : Nat} {hint : Hint K}
    (held : t.backup? group position = some hint) :
    hint.bare
      = { key := keyAt source (p.primaryCount + group * p.backupsPerChunk + position) } := by
  have image := built.backup? group position
  rw [held] at image
  split at image
  · exact Option.some.inj image
  · exact absurd image (by simp)

theorem backup?_isSome (built : t.Built p source stream) (group position : Nat) :
    (t.backup? group position).isSome ↔ group < p.chunkCount ∧ position < p.backupsPerChunk := by
  have image := built.backup? group position
  rw [← Option.isSome_map (f := Hint.bare), image]
  split
  · rename_i within
    exact ⟨fun _ => within, fun _ => rfl⟩
  · rename_i past
    exact ⟨fun live => absurd live (by simp), fun within => absurd within past⟩

end Built

/-- The pass over the rest of a stream, of which `passed` has been taken in. -/
theorem absorbStream_covers {rest : List Chunk} : ∀ {passed : List Chunk} {t : Tables K},
    t.Covers p (passed ++ rest) passed.length →
    t.absorbStream p passed.length rest = .ok t' →
      t'.bare = t.bare ∧ t'.Covers p (passed ++ rest) p.chunkCount
        ∧ (passed ++ rest).length = p.chunkCount ∧ ∀ words ∈ rest, words.length = p.chunkSize := by
  induction rest with
  | nil =>
    intro passed t covers h
    rw [absorbStream] at h
    split at h
    · rename_i all
      cases h
      rw [all] at covers
      exact ⟨rfl, covers, by rw [List.append_nil, all], fun words member => absurd member (by simp)⟩
    · exact absurd h (by simp)
  | cons words rest ih =>
    intro passed t covers h
    rw [absorbStream] at h
    split at h
    · exact absurd h (by simp)
    split at h
    · exact absurd h (by simp)
    rename_i fits
    cases taken : t.absorb p passed.length words with
    | error cause => rw [taken] at h; exact absurd h (by simp [Outcome.bind])
    | fault cause => rw [taken] at h; exact absurd h (by simp [Outcome.bind])
    | ok next =>
      rw [taken] at h
      -- What has passed grows by the chunk at the head, and the whole stream stays the same.
      have here : (passed ++ words :: rest)[passed.length]? = some words := by simp
      have more := covers.absorb here taken
      have split : passed ++ words :: rest = (passed ++ [words]) ++ rest := by simp
      have count : passed.length + 1 = (passed ++ [words]).length := by simp
      rw [split, count] at more
      have h : next.absorbStream p (passed.length + 1) rest = .ok t' := h
      rw [count] at h
      obtain ⟨bare, covers, length, lengths⟩ := ih more h
      refine ⟨bare.trans (bare_of_absorb taken), split ▸ covers, split ▸ length, ?_⟩
      intro other member
      rcases List.mem_cons.mp member with rfl | later
      · exact Decidable.not_not.mp fits
      · exact lengths other later

theorem built_of_absorbStream [KeySource σ K] {source : σ}
    (h : (draw p source).1.absorbStream p 0 stream = .ok t) : t.Built p source stream := by
  -- Before the first chunk every parity is zero.
  have start : (draw (K := K) p source).1.Covers p ([] ++ stream) ([] : List Chunk).length := by
    constructor
    · intro slot hint held
      rw [hint?_draw] at held
      split at held
      · cases held
        rfl
      · exact absurd held (by simp)
    · intro group position hint held
      rw [backup?_draw] at held
      split at held
      · cases held
        rfl
      · exact absurd held (by simp)
  obtain ⟨bare, covers, length, lengths⟩ := absorbStream_covers start h
  exact ⟨bare.trans (bare_draw p source), covers, length, lengths⟩

theorem absorb_ok (valid : p.Valid) (chunk : Nat) (words : Chunk) (t : Tables K) :
    t.absorb p chunk words
      = .ok ⟨absorbPrimary p chunk words t.primary, absorbBackups p chunk words t.backups⟩ := by
  have pos := valid.chunkSize_pos
  have backups := valid.backupsPerChunk_pos
  rw [absorb, if_neg (by omega), if_neg (by omega), if_neg (by omega)]

theorem absorbStream_ok (valid : p.Valid) {rest : List Chunk} :
    ∀ {chunk : Nat} (t : Tables K), chunk + rest.length = p.chunkCount →
      (∀ words ∈ rest, words.length = p.chunkSize) →
      ∃ t', t.absorbStream p chunk rest = .ok t' := by
  induction rest with
  | nil =>
    intro chunk t count _
    exact ⟨t, if_pos count⟩
  | cons words rest ih =>
    intro chunk t count lengths
    rw [List.length_cons] at count
    have left : chunk + 1 + rest.length = p.chunkCount := by omega
    obtain ⟨t', read⟩ := ih
      ⟨absorbPrimary p chunk words t.primary, absorbBackups p chunk words t.backups⟩ left
      fun other member => lengths other (List.mem_cons_of_mem _ member)
    refine ⟨t', ?_⟩
    rw [absorbStream, if_neg (by omega),
      if_neg (fun differs => differs (lengths words List.mem_cons_self)), absorb_ok valid]
    exact read

end Tables

end PrivateRetrieval

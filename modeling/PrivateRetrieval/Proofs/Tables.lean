/-
Tables of hints: reading slots back, and tables without parities.

An update of the tables touches one slot (`Tables.hint?_install`,
`Tables.hint?_retire`, `Tables.backup?_takeBackup`).

Keys, points and the places that are empty make up all that a session lets show
of its hints.  `Tables.bare` forgets the rest, and every operation on tables
commutes with it:

* **`Tables.hint?_bare`**, **`Tables.backup?_bare`** — the same slots are live;
* **`Tables.retire_bare`**, **`Tables.install_bare`**, **`Tables.takeBackup_bare`** —
  updates;
* **`Tables.firstThrough_bare`** — selection never looks at a parity;
* **`Tables.absorbStream_bare`** — reading chunks changes parities only, and the
  words decide neither how far the reading goes nor how it ends.
-/
import PrivateRetrieval.Client.Build
import PrivateRetrieval.Client.Query
import PrivateRetrieval.Proofs.Trace

namespace PrivateRetrieval

variable {K : Type}

/-! ### Reading slots back -/

namespace Tables

variable (t : Tables K)

theorem hint?_retire (slot other : Nat) :
    (t.retire slot).hint? other = if other = slot then none else t.hint? other := by
  rw [hint?, hint?, retire, List.getElem?_set]
  by_cases same : slot = other
  · rw [if_pos same, if_pos same.symm]
    split <;> rfl
  · rw [if_neg same, if_neg (Ne.symm same)]

theorem hint?_install {slot : Nat} (within : slot < t.primary.length) (hint : Hint K)
    (other : Nat) :
    (t.install slot hint).hint? other = if other = slot then some hint else t.hint? other := by
  rw [hint?, hint?, install, List.getElem?_set]
  by_cases same : slot = other
  · rw [if_pos same, if_pos within, if_pos same.symm]
    rfl
  · rw [if_neg same, if_neg (Ne.symm same)]

theorem backup?_takeBackup (group position group' position' : Nat) :
    (t.takeBackup group position).backup? group' position'
      = if group' = group ∧ position' = position then none else t.backup? group' position' := by
  rw [backup?, backup?, takeBackup, List.getElem?_modify]
  cases t.backups[group']? with
  | none => rw [Option.map_eq_map, Option.map_none, Option.bind_none, Option.join_none, ite_self]
  | some slots =>
    by_cases own : group = group'
    · subst own
      simp only [if_pos, Option.map_eq_map, Option.map_some, Option.bind_some,
        List.getElem?_set, true_and]
      by_cases same : position = position'
      · subst same
        simp only [if_pos]
        split <;> rfl
      · rw [if_neg same, if_neg (Ne.symm same)]
    · simp only [if_neg own, Option.map_eq_map, Option.map_some, Option.bind_some]
      rw [if_neg fun both => own both.1.symm]

theorem hint?_of_retire {t : Tables K} {slot other : Nat} {hint : Hint K}
    (held : (t.retire slot).hint? other = some hint) : t.hint? other = some hint := by
  rw [hint?_retire] at held
  split at held
  · exact absurd held (by simp)
  · exact held

theorem backup?_of_takeBackup {t : Tables K} {group position group' position' : Nat}
    {hint : Hint K} (held : (t.takeBackup group position).backup? group' position' = some hint) :
    t.backup? group' position' = some hint := by
  rw [backup?_takeBackup] at held
  split at held
  · exact absurd held (by simp)
  · exact held

theorem lt_length_of_hint? {t : Tables K} {slot : Nat} {hint : Hint K}
    (held : t.hint? slot = some hint) : slot < t.primary.length := by
  rw [hint?, Option.join_eq_some_iff] at held
  exact (List.getElem?_eq_some_iff.mp held).1

variable [Prf K] {t : Tables K} {index chunk chunkSize slot : Nat}

/-- Selection takes the first live slot whose hint passes through the index. -/
theorem firstThrough_eq_some_iff : t.firstThrough index chunk chunkSize = some slot
    ↔ (∃ hint, t.hint? slot = some hint ∧ hint.elementAt chunk chunkSize = index)
      ∧ ∀ earlier < slot, ∀ hint, t.hint? earlier = some hint →
        hint.elementAt chunk chunkSize ≠ index := by
  have through (place : Nat) (within : place < t.primary.length) :
      t.primary[place].any (·.elementAt chunk chunkSize = index) = true
        ↔ ∃ hint, t.hint? place = some hint ∧ hint.elementAt chunk chunkSize = index := by
    rw [hint?, List.getElem?_eq_getElem within, Option.join_some]
    cases t.primary[place] with
    | none => simp
    | some hint => simp
  rw [firstThrough, List.findIdx?_eq_some_iff_getElem]
  constructor
  · rintro ⟨within, here, before⟩
    refine ⟨(through slot within).mp here, fun earlier lt hint held met => ?_⟩
    exact before earlier lt ((through earlier (by omega)).mpr ⟨hint, held, met⟩)
  · rintro ⟨⟨hint, held, met⟩, before⟩
    have within := lt_length_of_hint? held
    refine ⟨within, (through slot within).mpr ⟨hint, held, met⟩, fun earlier lt here => ?_⟩
    obtain ⟨other, held', met'⟩ := (through earlier (by omega)).mp here
    exact before earlier lt other held' met'

theorem firstThrough_eq_none_iff : t.firstThrough index chunk chunkSize = none
    ↔ ∀ slot hint, t.hint? slot = some hint → hint.elementAt chunk chunkSize ≠ index := by
  rw [firstThrough, List.findIdx?_eq_none_iff]
  constructor
  · intro never slot hint held met
    have live : some hint ∈ t.primary :=
      List.mem_of_getElem? (Option.join_eq_some_iff.mp held)
    exact absurd (never _ live) (by simp [met])
  · intro never slot member
    cases slot with
    | none => rfl
    | some hint =>
      obtain ⟨place, within, here⟩ := List.mem_iff_getElem.mp member
      have held : t.hint? place = some hint := by
        rw [hint?, List.getElem?_eq_getElem within, here, Option.join_some]
      simpa using never place hint held

end Tables

/-! ### Tables without parities -/

/-- A slot without the parity of its hint. -/
def Slot.bare (slot : Slot K) : Slot K := slot.map Hint.bare

/-- Words that are all zero, as many as there are. -/
def Chunk.blank (words : Chunk) : Chunk := List.replicate words.length 0

@[simp] theorem Chunk.length_blank (words : Chunk) : words.blank.length = words.length :=
  List.length_replicate

namespace Tables

/-- Tables without the parities of their hints. -/
def bare (t : Tables K) : Tables K :=
  ⟨t.primary.map Slot.bare, t.backups.map (·.map Slot.bare)⟩

variable (t : Tables K)

theorem hint?_bare (slot : Nat) : t.bare.hint? slot = (t.hint? slot).map Hint.bare := by
  rw [hint?, hint?, bare, List.getElem?_map]
  cases t.primary[slot]? with
  | none => rfl
  | some held => rfl

theorem backup?_bare (group position : Nat) :
    t.bare.backup? group position = (t.backup? group position).map Hint.bare := by
  rw [backup?, backup?, bare, List.getElem?_map]
  cases t.backups[group]? with
  | none => rfl
  | some slots =>
    simp only [Option.map_some, Option.bind_some, List.getElem?_map]
    cases slots[position]? with
    | none => rfl
    | some held => rfl

theorem retire_bare (slot : Nat) : (t.retire slot).bare = t.bare.retire slot := by
  simp only [retire, bare, List.map_set, Slot.bare, Option.map_none]

theorem install_bare (slot : Nat) (hint : Hint K) :
    (t.install slot hint).bare = t.bare.install slot hint.bare := by
  simp only [install, bare, List.map_set, Slot.bare, Option.map_some]

theorem takeBackup_bare (group position : Nat) :
    (t.takeBackup group position).bare = t.bare.takeBackup group position := by
  simp only [takeBackup, bare, Tables.mk.injEq, true_and]
  refine List.ext_getElem? fun other => ?_
  rw [List.getElem?_map, List.getElem?_modify, List.getElem?_modify, List.getElem?_map]
  cases t.backups[other]? with
  | none => rfl
  | some slots =>
    by_cases here : group = other
    · simp only [if_pos here, Option.map_eq_map, Option.map_some, List.map_set, Slot.bare,
        Option.map_none]
    · simp only [if_neg here, Option.map_eq_map, Option.map_some]

variable [Prf K]

theorem firstThrough_bare (index chunk chunkSize : Nat) :
    t.bare.firstThrough index chunk chunkSize = t.firstThrough index chunk chunkSize := by
  rw [firstThrough, firstThrough, bare, List.findIdx?_map]
  congr 1
  funext slot
  cases slot with
  | none => rfl
  | some hint => rfl

theorem absorbPrimary_bare (p : Params) (chunk : Nat) (words : Chunk) (primary : List (Slot K)) :
    (absorbPrimary p chunk words primary).map Slot.bare = primary.map Slot.bare := by
  rw [absorbPrimary, List.map_map]
  refine List.map_congr_left fun slot _ => ?_
  cases slot with
  | none => rfl
  | some hint => rfl

theorem absorbBackups_bare (p : Params) (chunk : Nat) (words : Chunk)
    (backups : List (List (Slot K))) :
    (absorbBackups p chunk words backups).map (·.map Slot.bare)
      = backups.map (·.map Slot.bare) := by
  refine List.ext_getElem? fun group => ?_
  rw [absorbBackups, List.getElem?_map, List.getElem?_mapIdx, List.getElem?_map]
  cases backups[group]? with
  | none => rfl
  | some slots =>
    simp only [Option.map_some, Option.some.injEq]
    split
    · rfl
    · exact absorbPrimary_bare p chunk words slots

theorem absorb_blank (hint : Hint K) (chunk : Nat) (words : Chunk) (chunkSize : Nat) :
    hint.bare.absorb chunk words.blank chunkSize = hint.bare := by
  -- Whatever offset the trace has, there is a zero or nothing at all.
  have zero : words.blank.getD (hint.bare.offsetAt chunk chunkSize) 0 = 0 := by
    rw [Chunk.blank, List.getD_eq_getElem?_getD, List.getElem?_replicate]
    split <;> rfl
  rw [Hint.absorb, zero, Hint.xorParity, UInt64.xor_zero]

theorem absorbPrimary_blank (p : Params) (chunk : Nat) (words : Chunk) (primary : List (Slot K)) :
    absorbPrimary p chunk words.blank (primary.map Slot.bare) = primary.map Slot.bare := by
  rw [absorbPrimary, List.map_map]
  refine List.map_congr_left fun slot _ => ?_
  cases slot with
  | none => rfl
  | some hint => exact congrArg some (absorb_blank hint chunk words p.chunkSize)

theorem absorbBackups_blank (p : Params) (chunk : Nat) (words : Chunk)
    (backups : List (List (Slot K))) :
    absorbBackups p chunk words.blank (backups.map (·.map Slot.bare))
      = backups.map (·.map Slot.bare) := by
  refine List.ext_getElem? fun group => ?_
  rw [absorbBackups, List.getElem?_mapIdx, List.getElem?_map]
  cases backups[group]? with
  | none => rfl
  | some slots =>
    simp only [Option.map_some, Option.some.injEq]
    split
    · rfl
    · exact absorbPrimary_blank p chunk words slots

/-- Taking in a chunk goes the same way for zeros in its place. -/
theorem absorb_bare (p : Params) (chunk : Nat) (words : Chunk) :
    t.bare.absorb p chunk words.blank = bare <$> t.absorb p chunk words := by
  unfold absorb
  by_cases noWords : p.chunkSize = 0 ∧ p.primaryCount ≠ 0
  · rw [if_pos noWords, if_pos noWords]
    rfl
  rw [if_neg noWords, if_neg noWords]
  by_cases noBackups : p.backupsPerChunk = 0
  · rw [if_pos noBackups, if_pos noBackups]
    rfl
  rw [if_neg noBackups, if_neg noBackups]
  by_cases noOffsets : p.chunkSize = 0 ∧ 1 < p.chunkCount
  · rw [if_pos noOffsets, if_pos noOffsets]
    rfl
  rw [if_neg noOffsets, if_neg noOffsets, bare, absorbPrimary_blank, absorbBackups_blank]
  refine congrArg Outcome.ok ?_
  rw [bare, absorbPrimary_bare, absorbBackups_bare]

theorem absorb_of_ok {p : Params} {chunk : Nat} {words : Chunk} {t t' : Tables K}
    (h : t.absorb p chunk words = .ok t') :
    t' = ⟨absorbPrimary p chunk words t.primary, absorbBackups p chunk words t.backups⟩ := by
  unfold absorb at h
  split at h
  · exact absurd h (by simp)
  split at h
  · exact absurd h (by simp)
  split at h
  · exact absurd h (by simp)
  · exact (Outcome.ok.inj h).symm

theorem bare_of_absorb {p : Params} {chunk : Nat} {words : Chunk} {t t' : Tables K}
    (h : t.absorb p chunk words = .ok t') : t'.bare = t.bare := by
  rw [absorb_of_ok h, bare, absorbPrimary_bare, absorbBackups_bare]
  rfl

/-- Reading a stream goes the same way for zeros in place of its words. -/
theorem absorbStream_bare (p : Params) (chunk : Nat) (stream : List Chunk) :
    t.bare.absorbStream p chunk (stream.map Chunk.blank)
      = bare <$> t.absorbStream p chunk stream := by
  induction stream generalizing chunk t with
  | nil =>
    simp only [List.map_nil, absorbStream]
    split <;> rfl
  | cons words rest ih =>
    simp only [List.map_cons, absorbStream, Chunk.length_blank]
    split
    · rfl
    split
    · rfl
    rw [absorb_bare]
    cases t.absorb p chunk words with
    | ok taken => exact ih taken (chunk + 1)
    | error cause => rfl
    | fault cause => rfl

end Tables

end PrivateRetrieval

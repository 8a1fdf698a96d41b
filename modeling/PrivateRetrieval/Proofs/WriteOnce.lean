/-
What a session has retrieved.

A random query is drawn again until its index is new, and all that guards the loop is a
comparison of two numbers: as long as fewer words are kept than there are, an index is
left.  That is so because the cache only ever grows, by one new index in range at a time:

* **`Cache.Keyed`**, **`Cache.Keyed.full_iff`** — distinct indices in range; they are as many
  as there are indices just if they are all of them;
* **`Client.Change.keyed`**, **`Client.Change.cached_eq`** — no change gives this up, and none
  overwrites a word;
* **`Client.WriteOnce`**, **`Client.write_once`** — what adds to the cache, that nothing is
  taken from it or asked for again, and how random queries end.
-/
import Mathlib.Data.Finset.Card
import Mathlib.Data.Finset.Range
import PrivateRetrieval.Proofs.Delivery
import PrivateRetrieval.Proofs.Sampling
import PrivateRetrieval.Proofs.SingleUse

namespace PrivateRetrieval

variable {σ K : Type}

/-! ### Distinct indices -/

namespace Cache

/-- The indices whose words are kept. -/
def indices (cache : Cache) : List Nat := cache.entries.map Prod.fst

/-- The indices are distinct and below `size`. -/
structure Keyed (cache : Cache) (size : Nat) : Prop where
  nodup : cache.indices.Nodup
  lt : ∀ index ∈ cache.indices, index < size

variable {cache : Cache} {size index : Nat}

theorem isSome_get?_iff : (cache.get? index).isSome ↔ index ∈ cache.indices := by
  rw [get?, List.lookup_isSome_iff, indices, List.mem_map]
  constructor
  · rintro ⟨entry, member, same⟩
    exact ⟨entry, member, (eq_of_beq same).symm⟩
  · rintro ⟨entry, member, rfl⟩
    exact ⟨entry, member, beq_self_eq_true _⟩

theorem Keyed.empty (size : Nat) : ({} : Cache).Keyed size :=
  ⟨List.nodup_nil, fun _ member => absurd member List.not_mem_nil⟩

theorem Keyed.insert (keyed : cache.Keyed size) (lt : index < size) (word : UInt64) :
    (cache.insert index word).Keyed size := by
  have others : (cache.entries.filter (·.1 != index)).map Prod.fst
      = cache.indices.filter (· != index) := by
    rw [indices, List.filter_map]
    rfl
  constructor
  · show (index :: _).Nodup
    rw [others, List.nodup_cons]
    exact ⟨fun member => by simpa using (List.mem_filter.mp member).2, keyed.nodup.filter _⟩
  · intro other member
    have member : other ∈ index :: (cache.entries.filter (·.1 != index)).map Prod.fst := member
    rw [others, List.mem_cons] at member
    rcases member with rfl | member
    · exact lt
    · exact keyed.lt other (List.mem_filter.mp member).1

theorem Keyed.subset (keyed : cache.Keyed size) : cache.indices.toFinset ⊆ Finset.range size :=
  fun index member => Finset.mem_range.mpr (keyed.lt index (List.mem_toFinset.mp member))

theorem Keyed.card (keyed : cache.Keyed size) : cache.indices.toFinset.card = cache.size := by
  rw [List.toFinset_card_of_nodup keyed.nodup, indices, List.length_map, Cache.size]

theorem Keyed.size_le (keyed : cache.Keyed size) : cache.size ≤ size := by
  have le := Finset.card_le_card keyed.subset
  rwa [keyed.card, Finset.card_range] at le

/-- As many distinct indices as there are, all in range, are all of them. -/
theorem Keyed.full_iff (keyed : cache.Keyed size) :
    cache.size = size ↔ ∀ index < size, (cache.get? index).isSome := by
  rw [← keyed.card]
  constructor
  · intro full index lt
    have all : cache.indices.toFinset = Finset.range size :=
      Finset.eq_of_subset_of_card_le keyed.subset (by rw [Finset.card_range, full])
    rw [isSome_get?_iff, ← List.mem_toFinset, all]
    exact Finset.mem_range.mpr lt
  · intro all
    have covered : Finset.range size ⊆ cache.indices.toFinset := fun index member =>
      List.mem_toFinset.mpr (isSome_get?_iff.mp (all index (Finset.mem_range.mp member)))
    rw [keyed.subset.antisymm covered, Finset.card_range]

end Cache

variable [Prf K] [KeySource σ K]

namespace Client

variable {client after first last : Client σ K} {marks history : List Milestone}
  {operation : Operation} {query : Query}

/-! ### One change -/

theorem Change.keyed {peer : Peer σ K} (change : Change peer client marks after)
    (consistent : client.Consistent) (keyed : client.cache.Keyed client.params.dbSize) :
    after.cache.Keyed after.params.dbSize := by
  cases change with
  | refresh pending next left => exact keyed.insert (consistent.awaits pending).inRange _
  | exhaust pending next left => exact keyed.insert (consistent.awaits pending).inRange _
  | _ => exact keyed

/-- The word of a pending query is new, so none is overwritten. -/
theorem Change.cached_eq {peer : Peer σ K} (change : Change peer client marks after)
    (consistent : client.Consistent) {index : Nat} {word : UInt64}
    (known : client.cached index = some word) : after.cached index = some word := by
  have inserted {query : Query} (pending : client.pending = some query) (word' : UInt64) :
      (client.cache.insert query.index word').get? index = some word := by
    rw [Cache.get?_insert]
    split
    · rename_i same
      have fresh := (consistent.awaits pending).fresh
      rw [← same, known] at fresh
      exact absurd fresh (by simp)
    · exact known
  cases change with
  | refresh pending next left => exact inserted pending _
  | exhaust pending next left => exact inserted pending _
  | _ => exact known

/-! ### Any number of changes -/

theorem Path.keyed {peer : Peer σ K} (path : Path peer first history last)
    (consistent : first.Consistent) (keyed : first.cache.Keyed first.params.dbSize) :
    last.cache.Keyed last.params.dbSize :=
  (path.kept (P := fun found => found.cache.Keyed found.params.dbSize) consistent
    (fun change consistent keyed => change.keyed consistent keyed) keyed).2

theorem Path.cached_eq {peer : Peer σ K} (path : Path peer first history last)
    (consistent : first.Consistent) {index : Nat} {word : UInt64}
    (known : first.cached index = some word) : last.cached index = some word :=
  (path.kept (P := fun found => found.cached index = some word) consistent
    (fun change consistent known => change.cached_eq consistent known) known).2

/-- An index whose word is known is not selected. -/
theorem Path.index_ne {peer : Peer σ K} (path : Path peer first history last) {index : Nat}
    (known : (first.cached index).isSome) (member : .selected query ∈ history) :
    query.index ≠ index := by
  rintro rfl
  obtain ⟨front, back, eq⟩ := List.append_of_mem member
  obtain ⟨before, _, path, here, -⟩ := path.split eq
  have known := path.invariant (P := fun found => (found.cached query.index).isSome)
    (fun change known => change.known known) known
  rw [here.selects.1.fresh] at known
  exact absurd known (by simp)

/-! ### What is kept -/

variable [RandomSource σ]

/-- What becomes of the words of a session. -/
structure WriteOnce (client : Client σ K) : Prop where
  inRange : ∀ {index : Nat}, (client.cached index).isSome → index < client.params.dbSize
  /-- A word that is kept is kept for good. -/
  stays : ∀ {index : Nat} {word : UInt64}, client.cached index = some word →
    ∀ more : List Operation, (client.after more).cached index = some word
  /-- An answer that is taken adds the index of its query, also if it costs a hint. -/
  adds : ∀ {operation : Operation} {query : Query}, operation.Delivers client query →
    client.cached query.index = none ∧ ∃ word,
      (operation.act client).state.cache = client.cache.insert query.index word
      ∧ (operation.act client).state.cache.size = client.cache.size + 1
      ∧ ((operation.act client).outcome = .ok (.word word)
        ∨ (operation.act client).outcome = .error (.backupsExhausted query.chunk query.index))
  /-- These are the answers with one of two outcomes, and nothing else adds an index. -/
  taken : ∀ {operation : Operation}, operation.Answering →
    ((∃ query, operation.Delivers client query)
      ↔ (∃ word, (operation.act client).outcome = .ok (.word word))
        ∨ ∃ chunk index, (operation.act client).outcome = .error (.backupsExhausted chunk index))
  ignores : ∀ {operation : Operation}, (∀ query, ¬ operation.Delivers client query) →
    (operation.act client).state.cache = client.cache
  /-- No query is made for the index again. -/
  unasked : ∀ {operation : Operation} {query : Query}, operation.Delivers client query →
    ∀ (more : List Operation) (later : Query),
      .selected later ∈ (operation.act client).state.history more → later.index ≠ query.index
  full : client.cache.size = client.params.dbSize
    ↔ ∀ index < client.params.dbSize, (client.cached index).isSome
  /-- A random query is refused just if no index is left. -/
  allCached : client.pending = none →
    ((randomQuery client).outcome = .error .allCached
      ↔ ∀ index < client.params.dbSize, (client.cached index).isSome)
  /-- Otherwise, where its draws come to an end, they end with an index that is left. -/
  drawn : ∀ {limit index : Nat} {source : σ},
    drawUncached client.cache client.params.dbSize limit client.source = (some index, source) →
    index < client.params.dbSize ∧ client.cached index = none
  /-- Such an index is then selected or missed. -/
  random : client.pending = none →
    (∃ index < client.params.dbSize, client.cached index = none) →
    (∃ index < client.params.dbSize, client.cached index = none
      ∧ ((∃ query, query.index = index ∧ (randomQuery client).outcome = .ok query)
        ∨ (randomQuery client).outcome = .error (.hintMiss index)))
    ∨ (∀ position < drawLimit,
        (client.cached (drawAt client.params.dbSize client.source position)).isSome)
      ∧ (randomQuery client).outcome = .fault .endlessDraws

theorem Consistent.adds (consistent : client.Consistent)
    (delivers : operation.Delivers client query) :
    client.cached query.index = none ∧ ∃ word,
      (operation.act client).state.cache = client.cache.insert query.index word
      ∧ (operation.act client).state.cache.size = client.cache.size + 1
      ∧ ((operation.act client).outcome = .ok (.word word)
        ∨ (operation.act client).outcome = .error (.backupsExhausted query.chunk query.index)) := by
  obtain ⟨parities, brings, length⟩ := delivers
  obtain ⟨word, outcome, leaves, ended, eq⟩ := consistent.taken brings length
  refine ⟨leaves.unknown, word, ?_⟩
  have larger : (client.cache.insert query.index word).size = client.cache.size + 1 :=
    Cache.size_insert leaves.unknown
  rw [eq]
  rcases ended with ⟨hint, position, -, rfl, left⟩ | ⟨-, rfl, left⟩
  · rw [left]
    exact ⟨rfl, larger, .inl rfl⟩
  · rw [left]
    exact ⟨rfl, larger, .inr rfl⟩

omit [KeySource σ K] in
theorem randomQuery_allCached_iff (valid : client.params.Valid)
    (keyed : client.cache.Keyed client.params.dbSize) (idle : client.pending = none) :
    (randomQuery client).outcome = .error .allCached
      ↔ client.cache.size = client.params.dbSize := by
  by_cases room : client.cache.size < client.params.dbSize
  · refine iff_of_false (fun refused => ?_) (Nat.ne_of_lt room)
    obtain ⟨rejected, index, -, missed, -⟩ := randomQuery_error_of_room valid idle room refused
    exact absurd missed (by simp)
  · rw [randomQuery_of_full idle (Nat.le_of_not_lt room)]
    exact iff_of_true rfl (Nat.le_antisymm keyed.size_le (Nat.le_of_not_lt room))

/-- Which answers are taken is told by how they end. -/
theorem Consistent.delivers_iff (consistent : client.Consistent)
    (answering : operation.Answering) :
    (∃ query, operation.Delivers client query)
      ↔ (∃ word, (operation.act client).outcome = .ok (.word word))
        ∨ ∃ chunk index,
          (operation.act client).outcome = .error (.backupsExhausted chunk index) := by
  constructor
  · rintro ⟨query, delivers⟩
    obtain ⟨-, word, -, -, yielded | exhausted⟩ := consistent.adds delivers
    · exact .inl ⟨word, yielded⟩
    · exact .inr ⟨query.chunk, query.index, exhausted⟩
  · rintro (⟨word, yielded⟩ | ⟨chunk, index, exhausted⟩)
    · exact delivers_of_word answering yielded
    · obtain ⟨query, parities, -, brings, length, -⟩ := consistent.exhausted answering exhausted
      exact ⟨query, parities, brings, length⟩

/-- An index that an answer has added is not selected again. -/
theorem Consistent.unasked (consistent : client.Consistent)
    (delivers : operation.Delivers client query) (more : List Operation) {later : Query}
    (member : .selected later ∈ (operation.act client).state.history more) :
    later.index ≠ query.index := by
  obtain ⟨-, word, kept, -⟩ := consistent.adds delivers
  refine (path_any _ more).index_ne ?_ member
  rw [cached, kept, Cache.get?_insert, if_pos rfl]
  rfl

omit [Prf K] [KeySource σ K] in
theorem unknown_of_drawUncached (nonempty : 0 < client.params.dbSize) {limit index : Nat}
    {source : σ} (ended : drawUncached client.cache client.params.dbSize limit client.source
      = (some index, source)) : index < client.params.dbSize ∧ client.cached index = none := by
  rcases drawUncached_cases client.cache client.params.dbSize limit client.source with
    ⟨rejected, found, -, firstNew, eq⟩ | ⟨-, eq⟩
  · rw [ended] at eq
    obtain rfl : index = found := Option.some.inj (congrArg Prod.fst eq)
    exact ⟨firstNew.lt nonempty, firstNew.unknown⟩
  · rw [ended] at eq
    exact absurd (congrArg Prod.fst eq) (by simp)

omit [KeySource σ K] in
/-- While an index is left there is room in the cache, so that a random query is not refused. -/
theorem randomQuery_of_unknown (valid : client.params.Valid)
    (keyed : client.cache.Keyed client.params.dbSize) (idle : client.pending = none) {index : Nat}
    (inRange : index < client.params.dbSize) (unknown : client.cached index = none) :
    (∃ index < client.params.dbSize, client.cached index = none
      ∧ ((∃ query, query.index = index ∧ (randomQuery client).outcome = .ok query)
        ∨ (randomQuery client).outcome = .error (.hintMiss index)))
    ∨ (∀ position < drawLimit,
        (client.cached (drawAt client.params.dbSize client.source position)).isSome)
      ∧ (randomQuery client).outcome = .fault .endlessDraws := by
  have room : client.cache.size < client.params.dbSize := by
    refine Nat.lt_of_le_of_ne keyed.size_le fun full => ?_
    have known : (client.cached index).isSome := keyed.full_iff.mp full index inRange
    exact absurd known (by simp [unknown])
  rcases randomQuery_ends valid idle room with
    ⟨rejected, drawn, firstNew, found | ⟨missed, -⟩⟩ | vain
  · exact .inl ⟨drawn, firstNew.lt valid.dbSize_pos, firstNew.unknown, .inl found⟩
  · exact .inl ⟨drawn, firstNew.lt valid.dbSize_pos, firstNew.unknown, .inr missed⟩
  · exact .inr vain

theorem Consistent.writeOnce (consistent : client.Consistent)
    (keyed : client.cache.Keyed client.params.dbSize) : client.WriteOnce where
  inRange known := keyed.lt _ (Cache.isSome_get?_iff.mp known)
  stays known more := (path_any client more).cached_eq consistent known
  adds := consistent.adds
  taken := consistent.delivers_iff
  ignores := cache_of_not_delivers
  unasked delivers more _ := consistent.unasked delivers more
  full := keyed.full_iff
  allCached idle := (randomQuery_allCached_iff consistent.valid keyed idle).trans keyed.full_iff
  drawn := unknown_of_drawUncached consistent.valid.dbSize_pos
  random := fun idle ⟨_, inRange, unknown⟩ =>
    randomQuery_of_unknown consistent.valid keyed idle inRange unknown

/-- **What a session has retrieved.**  Whatever is asked of a session and whatever its servers
answer, its words are written once, and the number of them tells whether any is left. -/
theorem write_once {size : Nat} {p : Params} (derived : p.Derived size) {source : σ}
    {stream : List Chunk} (ready : (setup (K := K) p source stream).outcome = .ok ())
    (run : List Operation) :
    let last := (setup (K := K) p source stream).state.after run
    last.params = p ∧ last.WriteOnce := by
  intro last
  have params : last.params = p := (params_after _ run).trans (setup_params ready)
  have built : (setup (K := K) p source stream).state.Consistent :=
    consistent_setup derived.valid ready
  have consistent : last.Consistent := consistent_after built run
  -- The cache is empty after the first build, and stays keyed from then on.
  have keyed : last.cache.Keyed last.params.dbSize := by
    refine (path_any _ run).keyed built ?_
    obtain ⟨tables, -, left⟩ := setup_of_ok ready
    rw [left]
    exact .empty _
  exact ⟨params, consistent.writeOnce keyed⟩

/-- Both backup hints are used, for the indices 0 and 2, and then both slots are lost, with the
indices 3 and 1. All words are kept, and a random query is refused. -/
theorem write_once_of_four_words :
    let last := Small.client.after [.select 0, .recover ⟨0, 0, 0⟩ [0, 0], .select 2,
      .recover ⟨2, 1, 0⟩ [0, 0], .select 3, .recover ⟨3, 1, 1⟩ [0, 0], .select 1,
      .recover ⟨1, 0, 0⟩ [0, 0]]
    last.cache.size = 4 ∧ last.liveCount = 0 ∧ (last.cached 3).isSome
      ∧ (randomQuery last).outcome = .error .allCached := by
  intro last
  have size : last.cache.size = 4 := by decide
  obtain ⟨(params : last.params = Small.params), (written : last.WriteOnce)⟩ :=
    write_once Small.derived Small.setup_ok [.select 0, .recover ⟨0, 0, 0⟩ [0, 0], .select 2,
      .recover ⟨2, 1, 0⟩ [0, 0], .select 3, .recover ⟨3, 1, 1⟩ [0, 0], .select 1,
      .recover ⟨1, 0, 0⟩ [0, 0]]
  have all := written.full.mp (by rw [params]; exact size)
  exact ⟨size, by decide, all 3 (by rw [params]; decide), (written.allCached (by decide)).mpr all⟩

end Client

end PrivateRetrieval

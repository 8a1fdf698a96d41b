/-
Random indices.

A random index is drawn again as long as its word is known.  Where the loop ends,
and where it leaves the source, is a matter of the draws and of the cache alone:

* **`drawAt`**, **`skipDraws`** — the draws of a source in order, and the source after
  so many of them;
* **`Cache.FirstNew`** — the first draw of an index that is not known;
* **`drawUncached_cases`** — the loop ends with that draw, unless its limit comes
  first;
* **`Client.randomQuery_ends`** — a random query selects or misses what was
  drawn, and can go wrong in no other way (`Client.randomQuery_error`).
-/
import PrivateRetrieval.Proofs.Steps

namespace PrivateRetrieval

variable {σ K : Type}

section Draws

variable [RandomSource σ]

/-- The source after `count` numbers below `size` have been drawn. -/
def skipDraws (size : Nat) : (count : Nat) → σ → σ
  | 0, source => source
  | count + 1, source => skipDraws size count (drawBelow size source).2

/-- The number below `size` that is drawn at a position, counted from zero. -/
def drawAt (size : Nat) (source : σ) (position : Nat) : Nat :=
  (drawBelow size (skipDraws size position source)).1

/-- After `rejected` draws of known indices comes that of `index`, which is not known. -/
structure Cache.FirstNew (cache : Cache) (size : Nat) (source : σ) (rejected index : Nat) :
    Prop where
  known : ∀ position < rejected, (cache.get? (drawAt size source position)).isSome
  drawn : drawAt size source rejected = index
  unknown : cache.get? index = none

theorem Cache.FirstNew.lt {cache : Cache} {size : Nat} {source : σ} {rejected index : Nat}
    (firstNew : cache.FirstNew size source rejected index) (pos : 0 < size) : index < size := by
  rw [← firstNew.drawn]
  exact drawBelow_lt pos _

/-- The loop ends with the first draw of an index that is not known, unless it comes
to its limit before. -/
theorem drawUncached_cases (cache : Cache) (size limit : Nat) (source : σ) :
    (∃ rejected index, rejected < limit ∧ cache.FirstNew size source rejected index
      ∧ drawUncached cache size limit source = (some index, skipDraws size (rejected + 1) source))
    ∨ (∀ position < limit, (cache.get? (drawAt size source position)).isSome)
      ∧ drawUncached cache size limit source = (none, skipDraws size limit source) := by
  induction limit generalizing source with
  | zero => exact .inr ⟨fun position past => absurd past (Nat.not_lt_zero position), rfl⟩
  | succ limit ih =>
    rw [drawUncached]
    by_cases known : (cache.get? (drawBelow size source).1).isSome = true
    · rw [Cache.contains, if_pos known]
      -- The first of the draws is in vain, and all others are those of the source it leaves.
      rcases ih (drawBelow size source).2 with ⟨rejected, index, lt, firstNew, eq⟩ | ⟨vain, eq⟩
      · refine .inl ⟨rejected + 1, index, Nat.succ_lt_succ lt,
          ⟨?_, firstNew.drawn, firstNew.unknown⟩, eq⟩
        rintro (_ | position) lt
        · exact known
        · exact firstNew.known position (Nat.lt_of_succ_lt_succ lt)
      · refine .inr ⟨?_, eq⟩
        rintro (_ | position) lt
        · exact known
        · exact vain position (Nat.lt_of_succ_lt_succ lt)
    · rw [Cache.contains, if_neg known]
      refine .inl ⟨0, _, Nat.succ_pos limit, ⟨?_, rfl, Option.not_isSome_iff_eq_none.mp known⟩, rfl⟩
      exact fun position past => absurd past (Nat.not_lt_zero position)

end Draws

namespace Client

variable [Prf K] [RandomSource σ] {client : Client σ K}

theorem randomQuery_of_pending {query : Query} (pending : client.pending = some query) :
    randomQuery client = ⟨.error .queryPending, client, []⟩ := by
  rw [randomQuery, pending]
  rfl

theorem randomQuery_of_full (idle : client.pending = none)
    (full : client.params.dbSize ≤ client.cache.size) :
    randomQuery client = ⟨.error .allCached, client, []⟩ := by
  rw [randomQuery, idle]
  exact if_pos full

theorem randomQuery_of_room (idle : client.pending = none)
    (room : client.cache.size < client.params.dbSize) :
    randomQuery client
      = match drawUncached client.cache client.params.dbSize drawLimit client.source with
        | (some index, source) => select index { client with source }
        | (none, source) => ⟨.fault .endlessDraws, { client with source }, []⟩ := by
  rw [randomQuery, idle]
  refine (if_neg (Nat.not_le_of_lt room)).trans ?_
  generalize drawUncached client.cache client.params.dbSize drawLimit client.source = drawn
  obtain ⟨index | index, source⟩ := drawn <;> rfl

/-- A random query selects what is drawn, or its draws are all in vain. -/
theorem randomQuery_draws (idle : client.pending = none)
    (room : client.cache.size < client.params.dbSize) :
    (∃ rejected index, rejected < drawLimit
      ∧ client.cache.FirstNew client.params.dbSize client.source rejected index
      ∧ randomQuery client = select index { client with
          source := skipDraws client.params.dbSize (rejected + 1) client.source })
    ∨ (∀ position < drawLimit,
        (client.cached (drawAt client.params.dbSize client.source position)).isSome)
      ∧ randomQuery client = ⟨.fault .endlessDraws, { client with
          source := skipDraws client.params.dbSize drawLimit client.source }, []⟩ := by
  rw [randomQuery_of_room idle room]
  rcases drawUncached_cases client.cache client.params.dbSize drawLimit client.source with
    ⟨rejected, index, few, firstNew, eq⟩ | ⟨vain, eq⟩
  · rw [eq]
    exact .inl ⟨rejected, index, few, firstNew, rfl⟩
  · rw [eq]
    exact .inr ⟨vain, rfl⟩

omit [RandomSource σ] in
/-- The only thing that can be wrong with an index that is not known is that no hint
passes through it. -/
theorem select_of_new (client : Client σ K) {index : Nat} (idle : client.pending = none)
    (inRange : index < client.params.dbSize) (fresh : client.cached index = none)
    (pos : 0 < client.params.chunkSize) :
    (∃ query, query.index = index ∧ select index client = ⟨.ok query, client.awaiting query, []⟩)
    ∨ select index client
        = ⟨.error (.hintMiss index), client, [.uncovered index (client.params.chunkOf index)]⟩ := by
  rw [select_of_unknown idle inRange fresh pos]
  cases client.tables.firstThrough index (client.params.chunkOf index) client.params.chunkSize with
  | some slot => exact .inl ⟨_, rfl, rfl⟩
  | none => exact .inr rfl

/-- As long as not all words are known, a random query selects or misses what is drawn, or its
draws are all in vain. -/
theorem randomQuery_ends (valid : client.params.Valid) (idle : client.pending = none)
    (room : client.cache.size < client.params.dbSize) :
    (∃ rejected index, client.cache.FirstNew client.params.dbSize client.source rejected index
      ∧ ((∃ query, query.index = index ∧ (randomQuery client).outcome = .ok query)
        ∨ (randomQuery client).outcome = .error (.hintMiss index)
          ∧ (randomQuery client).state = { client with
              source := skipDraws client.params.dbSize (rejected + 1) client.source }))
    ∨ (∀ position < drawLimit,
        (client.cached (drawAt client.params.dbSize client.source position)).isSome)
      ∧ (randomQuery client).outcome = .fault .endlessDraws := by
  rcases randomQuery_draws idle room with ⟨rejected, index, -, firstNew, eq⟩ | ⟨vain, eq⟩
  · refine .inl ⟨rejected, index, firstNew, ?_⟩
    rw [eq]
    rcases select_of_new { client with
        source := skipDraws client.params.dbSize (rejected + 1) client.source }
        idle (firstNew.lt valid.dbSize_pos) firstNew.unknown valid.chunkSize_pos with
      ⟨query, same, found⟩ | missed
    · rw [found]
      exact .inl ⟨query, same, rfl⟩
    · rw [missed]
      exact .inr ⟨rfl, rfl⟩
  · rw [eq]
    exact .inr ⟨vain, rfl⟩

theorem randomQuery_error_of_room (valid : client.params.Valid) (idle : client.pending = none)
    (room : client.cache.size < client.params.dbSize) {cause : Error}
    (h : (randomQuery client).outcome = .error cause) :
    ∃ rejected index, client.cache.FirstNew client.params.dbSize client.source rejected index
      ∧ cause = .hintMiss index
      ∧ (randomQuery client).state = { client with
          source := skipDraws client.params.dbSize (rejected + 1) client.source } := by
  rcases randomQuery_ends valid idle room with
    ⟨rejected, index, firstNew, ⟨query, -, found⟩ | ⟨missed, moved⟩⟩ | ⟨-, vain⟩
  · exact absurd (found.symm.trans h) (by simp)
  · exact ⟨rejected, index, firstNew, Outcome.error.inj (h.symm.trans missed), moved⟩
  · exact absurd (vain.symm.trans h) (by simp)

theorem randomQuery_error (valid : client.params.Valid) {cause : Error}
    (h : (randomQuery client).outcome = .error cause) :
    (cause = .queryPending ∨ cause = .allCached) ∧ (randomQuery client).state = client
    ∨ ∃ rejected index, client.cache.FirstNew client.params.dbSize client.source rejected index
      ∧ cause = .hintMiss index
      ∧ (randomQuery client).state = { client with
          source := skipDraws client.params.dbSize (rejected + 1) client.source } := by
  by_cases idle : client.pending = none
  · by_cases room : client.cache.size < client.params.dbSize
    · exact .inr (randomQuery_error_of_room valid idle room h)
    · rw [randomQuery_of_full idle (Nat.le_of_not_lt room)] at h ⊢
      exact .inl ⟨.inr (Outcome.error.inj h).symm, rfl⟩
  · obtain ⟨query, pending⟩ := Option.ne_none_iff_exists'.mp idle
    rw [randomQuery_of_pending pending] at h ⊢
    exact .inl ⟨.inl (Outcome.error.inj h).symm, rfl⟩

theorem randomQuery_error_of_bytes {cause : Error}
    (h : (randomQueryBytes client).outcome = .error cause) :
    (randomQuery client).outcome = .error cause := by
  rw [randomQueryBytes] at h
  cases outcome : (randomQuery client).outcome with
  | error other =>
    rw [Action.bind_of_error outcome] at h
    exact congrArg Outcome.error (Outcome.error.inj h)
  | fault other =>
    rw [Action.bind_of_fault outcome] at h
    exact absurd h (by simp)
  | ok query =>
    -- The query that was selected is prepared without an error.
    obtain ⟨source, ⟨found, selects, eq⟩ | ⟨-, never⟩⟩ := randomQuery_cases client
    · obtain rfl : found = query := Outcome.ok.inj ((congrArg Step.outcome eq).symm.trans outcome)
      rw [Action.bind_of_ok outcome, Action.read_bind_pure, eq] at h
      cases prepared : (awaiting { client with source } found).prepare found with
      | error other => exact absurd prepared (prepare_awaiting_ne_error selects other)
      | ok offsets =>
        rw [prepared] at h
        exact absurd h (by rintro ⟨⟩)
      | fault other =>
        rw [prepared] at h
        exact absurd h (by rintro ⟨⟩)
    · exact absurd outcome (never query)

end Client

end PrivateRetrieval

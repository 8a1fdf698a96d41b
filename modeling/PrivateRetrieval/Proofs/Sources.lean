/-
What a session asks of its source.

A source is drawn from for random indices and for fresh hints, and is never looked at in any
other way.  So two sessions that differ in their sources alone stay together for as long as the
sources answer alike, and if nothing is drawn, for any two sources:

* **`Client.onto`** — a session with another source in place of its own;
* **`Client.Alongside`** — a step on related sources goes alike and leaves related sources
  (`Client.Alongside.bind`);
* **`Operation.alongside`** — so does every operation but a build: a random one if related
  sources have the same words, every other one in any case;
* **`Logged`** — a source that keeps the keys that were drawn from it: a session over it is the
  same session (`Operation.act_logged`), and a build is all that adds to the log.
-/
import PrivateRetrieval.Proofs.Failures

namespace PrivateRetrieval

variable {σ τ K α β : Type}

namespace Operation

/-- Operations that read chunks into fresh tables. -/
def isBuild : Operation → Bool
  | .rebuild _ => true
  | _ => false

/-- Operations that draw nothing from the source. -/
def Still (operation : Operation) : Prop := operation.isBuild = false ∧ ¬ operation.Random

end Operation

namespace Client

/-- A session with another source in place of its own. -/
def onto (client : Client σ K) (source : τ) : Client τ K where
  params := client.params
  source := source
  tables := client.tables
  cache := client.cache
  consumed := client.consumed
  pending := client.pending

@[simp] theorem params_onto (client : Client σ K) (source : τ) :
    (client.onto source).params = client.params := rfl

@[simp] theorem source_onto (client : Client σ K) (source : τ) :
    (client.onto source).source = source := rfl

@[simp] theorem tables_onto (client : Client σ K) (source : τ) :
    (client.onto source).tables = client.tables := rfl

@[simp] theorem cache_onto (client : Client σ K) (source : τ) :
    (client.onto source).cache = client.cache := rfl

@[simp] theorem pending_onto (client : Client σ K) (source : τ) :
    (client.onto source).pending = client.pending := rfl

/-- On related sources `there` does what `here` does, and leaves a related source. -/
def Alongside (R : σ → τ → Prop) (here : Act σ K α) (there : Act τ K α) : Prop :=
  ∀ client source, R client.source source →
    ∃ left, R (here client).state.source left
      ∧ there (client.onto source)
        = ⟨(here client).outcome, (here client).state.onto left, (here client).events⟩

variable {R : σ → τ → Prop}

namespace Alongside

variable {here : Act σ K α} {there : Act τ K α}

theorem pure (value : α) :
    Alongside (K := K) R (Pure.pure value : Act σ K α) (Pure.pure value) :=
  fun _ source related => ⟨source, related, rfl⟩

theorem bind {next : α → Act σ K β} {next' : α → Act τ K β} (first : Alongside R here there)
    (second : ∀ value, Alongside R (next value) (next' value)) :
    Alongside R (here >>= next) (there >>= next') := by
  intro client source related
  obtain ⟨left, related, eq⟩ := first client source related
  have outcome := congrArg Step.outcome eq
  cases ended : (here client).outcome with
  | ok value =>
    obtain ⟨last, related, eq'⟩ := second value (here client).state left related
    rw [Action.bind_of_ok ended, Action.bind_of_ok (outcome.trans ended), eq]
    dsimp only
    rw [eq']
    exact ⟨last, related, rfl⟩
  | error cause =>
    rw [Action.bind_of_error ended, Action.bind_of_error (outcome.trans ended), eq]
    exact ⟨left, related, rfl⟩
  | fault cause =>
    rw [Action.bind_of_fault ended, Action.bind_of_fault (outcome.trans ended), eq]
    exact ⟨left, related, rfl⟩

theorem map (f : α → β) (alongside : Alongside R here there) :
    Alongside R (f <$> here) (f <$> there) :=
  alongside.bind fun value => .pure (f value)

theorem read {f : Client σ K → Outcome Error α} {g : Client τ K → Outcome Error α}
    (same : ∀ client source, g (client.onto source) = f client) :
    Alongside R (Action.read f) (Action.read g) := by
  intro client source related
  rw [Action.read, Action.read, same client source]
  exact ⟨source, related, rfl⟩

theorem done (outcome : Outcome Error α) :
    Alongside (K := K) R (Action.done outcome : Act σ K α) (Action.done outcome) :=
  read fun _ _ => rfl

theorem attempt (alongside : Alongside R here there) :
    Alongside R here.attempt there.attempt := by
  intro client source related
  obtain ⟨left, related, eq⟩ := alongside client source related
  refine ⟨left, by rwa [Action.attempt_state], ?_⟩
  rw [Action.attempt, Action.attempt, eq]
  cases (here client).outcome <;> rfl

/-- A step that does the same on every source, and keeps the one that it finds. -/
theorem of_eq (kept : ∀ client, (here client).state.source = client.source)
    (same : ∀ client source, there (client.onto source)
      = ⟨(here client).outcome, (here client).state.onto source, (here client).events⟩) :
    Alongside R here there := by
  intro client source related
  exact ⟨source, (kept client).symm ▸ related, same client source⟩

end Alongside

/-! ### Steps that draw nothing -/

theorem settle_alongside (query : Query) (word : UInt64) :
    Alongside (K := K) R (settle query word : Act σ K Unit) (settle query word) :=
  .of_eq (fun _ => rfl) fun _ _ => rfl

theorem refresh_alongside (query : Query) (word : UInt64) :
    Alongside (K := K) R (refresh query word : Act σ K Unit) (refresh query word) := by
  refine .of_eq (fun client => ?_) fun client source => ?_
  · rw [refresh]
    cases client.nextBackup query.chunk <;> rfl
  · have next : (client.onto source).nextBackup query.chunk = client.nextBackup query.chunk := rfl
    rw [refresh, refresh, next]
    cases client.nextBackup query.chunk <;> rfl

theorem recover_alongside (query : Query) (parities : List UInt64) :
    Alongside (K := K) R (recover query parities : Act σ K UInt64) (recover query parities) := by
  refine Alongside.bind (.read fun _ _ => rfl) fun word => ?_
  refine Alongside.bind (settle_alongside query word) fun _ => ?_
  exact Alongside.bind (refresh_alongside query word) fun _ => .pure word

theorem processResponse_alongside (response : Bytes) :
    Alongside (K := K) R (processResponse response : Act σ K UInt64)
      (processResponse response) := by
  refine Alongside.bind (.read fun _ _ => rfl) fun query => ?_
  exact Alongside.bind (.done _) fun parities => recover_alongside query parities

theorem discard_alongside :
    Alongside (K := K) R (discard : Act σ K (Option Query)) discard := by
  refine .of_eq (fun client => ?_) fun client source => ?_
  · rw [discard]
    cases client.pending <;> rfl
  · rw [discard, discard, pending_onto]
    cases client.pending <;> rfl

theorem Alongside.discardOnError {here : Act σ K α} {there : Act τ K α}
    (alongside : Alongside R here there) :
    Alongside R (discardOnError here) (discardOnError there) := by
  refine alongside.attempt.bind fun ended => ?_
  cases ended with
  | ok value => exact .pure value
  | error cause => exact discard_alongside.bind fun _ => .done (.error cause)

theorem exchange_alongside (respond : Bytes → Reply Bytes) (bytes : Bytes) :
    Alongside (K := K) R (exchange respond bytes : Act σ K UInt64) (exchange respond bytes) := by
  have told : Alongside (K := K) R ((respond bytes).toAction : Act σ K Bytes)
      (respond bytes).toAction := .of_eq (fun _ => rfl) fun _ _ => rfl
  exact told.bind processResponse_alongside

variable [Prf K]

theorem select_alongside (index : Nat) :
    Alongside (K := K) R (select index : Act σ K Query) (select index) := by
  refine .of_eq (fun client => ?_) fun client source => ?_
  · rcases select_cases index client with ⟨query, -, -, eq⟩ | ⟨same, -⟩
    · rw [eq]
      rfl
    · rw [same]
  · unfold select
    dsimp only
    rw [pending_onto, params_onto, cache_onto, tables_onto]
    by_cases busy : client.pending.isSome = true
    · rw [if_pos busy, if_pos busy]
    rw [if_neg busy, if_neg busy]
    by_cases past : client.params.dbSize ≤ index
    · rw [if_pos past, if_pos past]
    rw [if_neg past, if_neg past]
    by_cases known : client.cache.contains index = true
    · rw [if_pos known, if_pos known]
    rw [if_neg known, if_neg known]
    by_cases noWords : client.params.chunkSize = 0
    · rw [if_pos noWords, if_pos noWords]
    rw [if_neg noWords, if_neg noWords]
    cases client.tables.firstThrough index (client.params.chunkOf index)
      client.params.chunkSize <;> rfl

theorem query_alongside (index : Nat) :
    Alongside (K := K) R (Client.query index : Act σ K Bytes) (Client.query index) := by
  refine (select_alongside index).bind fun query => ?_
  exact Alongside.bind (.read fun _ _ => rfl) fun offsets => .pure (encodeOffsets offsets)

theorem retrieve_alongside (index : Nat) (respond : Bytes → Reply Bytes) :
    Alongside (K := K) R (retrieve index respond : Act σ K UInt64) (retrieve index respond) := by
  refine Alongside.bind (.read fun _ _ => rfl) fun known => ?_
  cases known with
  | some word => exact .pure word
  | none =>
    refine (query_alongside index).bind fun bytes => ?_
    exact (exchange_alongside respond bytes).discardOnError

end Client

/-! ### Random indices -/

section Words

variable [RandomSource σ] [RandomSource τ]

/-- Related sources have the same words, now and later. -/
def WordsAlike (R : σ → τ → Prop) : Prop :=
  ∀ source source', R source source' →
    (nextWord source).1 = (nextWord source').1 ∧ R (nextWord source).2 (nextWord source').2

variable {R : σ → τ → Prop} {source : σ} {source' : τ}

theorem WordsAlike.drawBelow (alike : WordsAlike R) (related : R source source') (n : Nat) :
    (drawBelow n source).1 = (drawBelow n source').1
      ∧ R (drawBelow n source).2 (drawBelow n source').2 := by
  obtain ⟨first, related⟩ := alike source source' related
  obtain ⟨second, later⟩ := alike _ _ related
  simp only [PrivateRetrieval.drawBelow, first, second]
  split
  · exact ⟨rfl, later⟩
  · exact ⟨rfl, related⟩

theorem WordsAlike.drawUncached (alike : WordsAlike R) (cache : Cache) (size limit : Nat) :
    ∀ {source : σ} {source' : τ}, R source source' →
      (drawUncached cache size limit source).1 = (drawUncached cache size limit source').1
        ∧ R (drawUncached cache size limit source).2 (drawUncached cache size limit source').2 := by
  induction limit with
  | zero => exact fun related => ⟨rfl, related⟩
  | succ limit ih =>
    intro source source' related
    obtain ⟨same, related⟩ := alike.drawBelow related size
    simp only [PrivateRetrieval.drawUncached, same]
    split
    · exact ih related
    · exact ⟨rfl, related⟩

namespace Client

variable [Prf K]

theorem randomQuery_alongside (alike : WordsAlike R) :
    Alongside (K := K) R (randomQuery : Act σ K Query) randomQuery := by
  intro client source related
  obtain ⟨same, left⟩ :=
    alike.drawUncached client.cache client.params.dbSize drawLimit related
  unfold randomQuery
  dsimp only
  rw [pending_onto, params_onto, cache_onto, source_onto]
  by_cases busy : client.pending.isSome = true
  · rw [if_pos busy, if_pos busy]
    exact ⟨source, related, rfl⟩
  rw [if_neg busy, if_neg busy]
  by_cases all : client.params.dbSize ≤ client.cache.size
  · rw [if_pos all, if_pos all]
    exact ⟨source, related, rfl⟩
  rw [if_neg all, if_neg all, ← same]
  cases (drawUncached client.cache client.params.dbSize drawLimit client.source).1 with
  | none => exact ⟨_, left, rfl⟩
  | some index => exact select_alongside index { client with source := _ } _ left

theorem randomQueryBytes_alongside (alike : WordsAlike R) :
    Alongside (K := K) R (randomQueryBytes : Act σ K (Nat × Bytes)) randomQueryBytes := by
  refine (randomQuery_alongside alike).bind fun query => ?_
  refine Alongside.bind (.read fun _ _ => rfl) fun offsets => ?_
  exact .pure (query.index, encodeOffsets offsets)

end Client

end Words

section Act

open Client

variable [Prf K] [RandomSource σ] [KeySource σ K] [RandomSource τ] [KeySource τ K]
  {R : σ → τ → Prop}

/-- Only a build asks a source for keys, and only a random operation asks it for words. -/
theorem Operation.alongside (operation : Operation) (noBuild : operation.isBuild = false)
    (words : operation.Random → WordsAlike R) :
    Alongside (K := K) R (operation.act : Act σ K Result) operation.act := by
  cases operation with
  | select index => exact (select_alongside index).map _
  | randomQuery => exact (randomQuery_alongside (words trivial)).map _
  | query index => exact (query_alongside index).map _
  | randomQueryBytes => exact (randomQueryBytes_alongside (words trivial)).map _
  | prepare handle => exact Alongside.map _ (.read fun _ _ => rfl)
  | recover handle parities => exact (recover_alongside handle parities).map _
  | processResponse response => exact (processResponse_alongside response).map _
  | retrieve index respond => exact (retrieve_alongside index respond).map _
  | discard => exact discard_alongside.map _
  | rebuild stream => exact absurd noBuild (by simp [isBuild])

theorem Operation.still_alongside {operation : Operation} (still : operation.Still) :
    Alongside (K := K) R (operation.act : Act σ K Result) operation.act :=
  operation.alongside still.1 fun random => absurd random still.2

end Act

/-! ### Keys -/

/-- Number of keys that a build draws. -/
def Params.keyCount (p : Params) : Nat := p.primaryCount + p.backupCount

/-- A source that keeps the keys that were drawn from it, in order. -/
structure Logged (σ K : Type) where
  source : σ
  keys : List K

/-- Words are drawn as before, and are not kept. -/
instance [RandomSource σ] : RandomSource (Logged σ K) where
  nextWord logged :=
    let drawn := nextWord logged.source
    (drawn.1, { logged with source := drawn.2 })

/-- Every key that is drawn is kept. -/
instance [KeySource σ K] : KeySource (Logged σ K) K where
  drawKey logged :=
    let drawn : K × σ := KeySource.drawKey logged.source
    (drawn.1, ⟨drawn.2, logged.keys ++ [drawn.1]⟩)

section Keys

variable [KeySource σ K]

/-- The next keys of a source, in the order in which they are drawn. -/
def nextKeys (count : Nat) (source : σ) : List K := (List.range count).map (keyAt source)

theorem nextKeys_succ (count : Nat) (source : σ) :
    nextKeys (count + 1) source
      = (KeySource.drawKey (K := K) source).1
        :: nextKeys count (KeySource.drawKey (K := K) source).2 := by
  rw [nextKeys, List.range_succ_eq_map, List.map_cons, List.map_map]
  rfl

theorem length_nextKeys (count : Nat) (source : σ) :
    (nextKeys (K := K) count source).length = count := by
  rw [nextKeys, List.length_map, List.length_range]

theorem skipKeys_logged (count : Nat) (source : σ) (keys : List K) :
    skipKeys K count (⟨source, keys⟩ : Logged σ K)
      = ⟨skipKeys K count source, keys ++ nextKeys count source⟩ := by
  induction count generalizing source keys with
  | zero => exact congrArg (Logged.mk source) (List.append_nil keys).symm
  | succ count ih =>
    rw [skipKeys, nextKeys_succ, List.append_cons]
    exact ih _ _

theorem keyAt_logged (source : σ) (keys : List K) (position : Nat) :
    keyAt (K := K) (⟨source, keys⟩ : Logged σ K) position = keyAt source position := by
  rw [keyAt, skipKeys_logged]
  rfl

theorem Tables.draw_logged (p : Params) (source : σ) (keys : List K) :
    (draw p (⟨source, keys⟩ : Logged σ K)).1 = (draw (K := K) p source).1 := by
  simp only [draw, drawGroups_eq, drawHints_source, drawHints_eq, skipKeys_logged, keyAt_logged]

/-- The keys that an operation draws. -/
def Operation.drawnKeys (client : Client σ K) (operation : Operation) : List K :=
  if operation.isBuild then nextKeys client.params.keyCount client.source else []

theorem Operation.drawnKeys_rebuild (client : Client σ K) (stream : List Chunk) :
    (Operation.rebuild stream).drawnKeys client
      = nextKeys client.params.keyCount client.source := rfl

namespace Client

/-- A session over a source that keeps its keys, behind those of `keys`. -/
def logged (client : Client σ K) (keys : List K) : Client (Logged σ K) K :=
  client.onto ⟨client.source, keys⟩

variable [Prf K]

theorem rebuild_logged (stream : List Chunk) (client : Client σ K) (keys : List K) :
    rebuild stream (client.logged keys)
      = ⟨(rebuild stream client).outcome,
        (rebuild stream client).state.logged
          (keys ++ nextKeys client.params.keyCount client.source),
        (rebuild stream client).events⟩ := by
  unfold rebuild
  dsimp only [logged, onto]
  rw [Tables.draw_logged, Tables.draw_source, Tables.draw_source, skipKeys_logged]
  cases Tables.absorbStream client.params 0 stream
    (Tables.draw (K := K) client.params client.source).1 <;> rfl

end Client

end Keys

section Log

open Client

variable [Prf K] [RandomSource σ] [KeySource σ K]

/-- An operation does over a logged source what it does, and the log grows by its keys. -/
theorem Operation.act_logged (operation : Operation) (client : Client σ K) (keys : List K) :
    operation.act (client.logged keys)
      = ⟨(operation.act client).outcome,
        (operation.act client).state.logged (keys ++ operation.drawnKeys client),
        (operation.act client).events⟩ := by
  cases build : operation.isBuild with
  | true =>
    cases operation with
    | rebuild stream =>
      rw [act, Action.map_apply, act, Action.map_apply, rebuild_logged, drawnKeys_rebuild]
    | _ => exact absurd build (by simp [isBuild])
  | false =>
    -- The words of a logged source are its own, and the log does not change with them.
    have alike : WordsAlike fun (source : σ) (log : Logged σ K) => log = ⟨source, keys⟩ := by
      rintro source _ rfl
      exact ⟨rfl, rfl⟩
    obtain ⟨left, rfl, eq⟩ := operation.alongside build (fun _ => alike) client _ rfl
    rw [drawnKeys, build, if_neg (by simp), List.append_nil]
    exact eq

end Log

end PrivateRetrieval

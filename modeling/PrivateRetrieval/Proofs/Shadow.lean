/-
The shadow of a session.

Words come in with chunks and answers, and are added to parities or kept until
they are asked for again.  Nothing else is done with them, and so every session
casts a shadow: the session in which all words and all parities are zero.

* **`Client.blank`**, **`Operation.blank`** — the shadow of a state, and of what the
  other side sends;
* **`Client.Shadows`** — a step that does with every shadow what another step does
  with the state that casts it (`Client.Shadows.bind`);
* **`Operation.shadows`** — every operation has such a step, namely its own shadow.
-/
import PrivateRetrieval.Proofs.Session
import PrivateRetrieval.Proofs.Steps
import PrivateRetrieval.Proofs.Tables
import PrivateRetrieval.Proofs.WordCodec

namespace PrivateRetrieval

variable {σ K α β γ δ : Type}

/-! ### Shadows of data -/

namespace Cache

/-- The known indices, each with the word zero. -/
def blank (cache : Cache) : Cache := ⟨cache.entries.map fun entry => (entry.1, 0)⟩

theorem get?_blank (cache : Cache) (index : Nat) :
    cache.blank.get? index = (cache.get? index).map fun _ => 0 := by
  obtain ⟨entries⟩ := cache
  rw [get?, get?, blank]
  induction entries with
  | nil => rfl
  | cons entry rest ih =>
    rw [List.map_cons, List.lookup_cons, List.lookup_cons]
    cases index == entry.1 with
    | true => rfl
    | false => exact ih

theorem contains_blank (cache : Cache) (index : Nat) :
    cache.blank.contains index = cache.contains index := by
  rw [contains, contains, get?_blank, Option.isSome_map]

theorem size_blank (cache : Cache) : cache.blank.size = cache.size := List.length_map _

theorem blank_insert (cache : Cache) (index : Nat) (word : UInt64) :
    (cache.insert index word).blank = cache.blank.insert index 0 := by
  simp only [insert, blank, List.map_cons, List.filter_map]
  rfl

theorem drawUncached_blank [RandomSource σ] (cache : Cache) (size limit : Nat) (source : σ) :
    drawUncached cache.blank size limit source = drawUncached cache size limit source := by
  induction limit generalizing source with
  | zero => rfl
  | succ limit ih => simp only [drawUncached, contains_blank, ih]

end Cache

namespace Words

/-- The count in front, and zeros for all other bytes. -/
def blank (bytes : Bytes) : Bytes :=
  bytes.take prefixWidth ++ List.replicate (bytes.length - prefixWidth) 0

theorem decodeBody_zeros (count : Nat) :
    decodeBody count (List.replicate (count * wordWidth) 0) = List.replicate count 0 := by
  induction count with
  | zero => rfl
  | succ count ih =>
    have first : min wordWidth ((count + 1) * wordWidth) = wordWidth := by
      rw [wordWidth]
      omega
    have rest : (count + 1) * wordWidth - wordWidth = count * wordWidth := by
      rw [Nat.succ_mul, Nat.add_sub_cancel]
    rw [decodeBody, List.take_replicate, List.drop_replicate, first, rest, ih, List.replicate_succ]
    rfl

/-- Whether bytes are decoded depends on their count and length alone. -/
theorem decode_blank (bytes : Bytes) : decode (blank bytes) = Chunk.blank <$> decode bytes := by
  have length : (blank bytes).length = bytes.length := by
    rw [blank, List.length_append, List.length_take, List.length_replicate]
    omega
  rw [decode, decode, length]
  by_cases short : bytes.length < prefixWidth
  · rw [if_pos short, if_pos short]
    rfl
  have front : (bytes.take prefixWidth).length = prefixWidth := List.length_take_of_le (by omega)
  rw [if_neg short, if_neg short, blank, List.take_left' front, List.drop_left' front]
  dsimp only
  rw [List.length_replicate, List.length_drop]
  by_cases differs : bytes.length - prefixWidth
      ≠ LittleEndian.decode (bytes.take prefixWidth) * wordWidth
  · rw [if_pos differs, if_pos differs]
    rfl
  · rw [if_neg differs, if_neg differs, Decidable.not_not.mp differs, decodeBody_zeros]
    refine congrArg Except.ok ?_
    rw [Chunk.blank, length_decodeBody]

end Words

/-- What was carried back, with zeros for its words. -/
def Reply.blank (reply : Reply Bytes) : Reply Bytes := .ofExcept (Words.blank <$> reply.result)

/-- What is yielded, with zero for a word. -/
def Result.blank : Result → Result
  | .word _ => .word 0
  | result => result

/-- An operation for which the other side contributes zeros. -/
def Operation.blank : Operation → Operation
  | .recover handle parities => .recover handle (Chunk.blank parities)
  | .processResponse response => .processResponse (Words.blank response)
  | .retrieve index respond => .retrieve index fun bytes => (respond bytes).blank
  | .rebuild stream => .rebuild (stream.map Chunk.blank)
  | operation => operation

namespace Client

/-- A session with zeros for all parities and all words. -/
def blank (client : Client σ K) : Client σ K :=
  { client with tables := client.tables.bare, cache := client.cache.blank }

/-! ### Shadows of steps -/

/-- `shadow` does with every shadow what `action` does with the state that casts it,
where `seen` is what is seen of the value. -/
def Shadows (seen : α → β) (action : Act σ K α) (shadow : Act σ K β) : Prop :=
  ∀ client, (shadow client.blank).outcome = seen <$> (action client).outcome
    ∧ (shadow client.blank).state = (action client).state.blank

namespace Shadows

variable {seen : α → β} {action : Act σ K α} {shadow : Act σ K β}

theorem pure {value : α} :
    Shadows (σ := σ) (K := K) seen (Pure.pure value) (Pure.pure (seen value)) :=
  fun _ => ⟨rfl, rfl⟩

theorem bind {seen' : γ → δ} {next : α → Act σ K γ} {next' : β → Act σ K δ}
    (first : Shadows seen action shadow)
    (second : ∀ value, Shadows seen' (next value) (next' (seen value))) :
    Shadows seen' (action >>= next) (shadow >>= next') := by
  intro client
  obtain ⟨outcome, state⟩ := first client
  cases ended : (action client).outcome with
  | ok value =>
    rw [ended] at outcome
    rw [Action.bind_of_ok ended, Action.bind_of_ok outcome, state]
    exact second value (action client).state
  | error cause =>
    rw [ended] at outcome
    rw [Action.bind_of_error ended, Action.bind_of_error outcome, state]
    exact ⟨rfl, rfl⟩
  | fault cause =>
    rw [ended] at outcome
    rw [Action.bind_of_fault ended, Action.bind_of_fault outcome, state]
    exact ⟨rfl, rfl⟩

theorem map {seen' : γ → δ} {f : α → γ} {g : β → δ} (shadows : Shadows seen action shadow)
    (same : ∀ value, g (seen value) = seen' (f value)) :
    Shadows seen' (f <$> action) (g <$> shadow) := by
  show Shadows seen' (action >>= Pure.pure ∘ f) (shadow >>= Pure.pure ∘ g)
  refine shadows.bind fun value => ?_
  rw [Function.comp_apply, Function.comp_apply, same]
  exact .pure

theorem read {f : Client σ K → Outcome Error α} {g : Client σ K → Outcome Error β}
    (same : ∀ client, g client.blank = seen <$> f client) :
    Shadows seen (Action.read f) (Action.read g) :=
  fun client => ⟨same client, rfl⟩

theorem attempt (shadows : Shadows seen action shadow) :
    Shadows (seen <$> ·) action.attempt shadow.attempt := by
  intro client
  obtain ⟨outcome, state⟩ := shadows client
  cases ended : (action client).outcome with
  | ok value =>
    rw [ended] at outcome
    simp only [Action.attempt, ended, outcome, state]
    exact ⟨rfl, rfl⟩
  | error cause =>
    rw [ended] at outcome
    simp only [Action.attempt, ended, outcome, state]
    exact ⟨rfl, rfl⟩
  | fault cause =>
    rw [ended] at outcome
    simp only [Action.attempt, ended, outcome, state]
    exact ⟨rfl, rfl⟩

theorem done {seen : α → β} (outcome : Outcome Error α) :
    Shadows (σ := σ) (K := K) seen (Action.done outcome) (Action.done (seen <$> outcome)) :=
  fun _ => ⟨rfl, rfl⟩

end Shadows

/-! ### Steps that cast shadows -/

theorem params_blank (client : Client σ K) : client.blank.params = client.params := rfl

theorem source_blank (client : Client σ K) : client.blank.source = client.source := rfl

theorem consumed_blank (client : Client σ K) : client.blank.consumed = client.consumed := rfl

theorem pending_blank (client : Client σ K) : client.blank.pending = client.pending := rfl

theorem cached_blank (client : Client σ K) (index : Nat) :
    client.blank.cached index = (client.cached index).map fun _ => 0 :=
  client.cache.get?_blank index

theorem pendingHint_blank (client : Client σ K) (query : Query) :
    client.blank.pendingHint query = Hint.bare <$> client.pendingHint query := by
  rw [pendingHint, pendingHint, pending_blank, show client.blank.tables.hint? query.slot = _ from
    client.tables.hint?_bare query.slot]
  split
  · rfl
  · cases client.tables.hint? query.slot with
    | none => rfl
    | some hint => rfl

/-- Parities are added to the parity of a hint, and looked at no further. -/
theorem answer_blank (client : Client σ K) (query : Query) (parities : List UInt64) :
    client.blank.answer query (Chunk.blank parities)
      = (fun _ => 0) <$> client.answer query parities := by
  rw [answer, answer, pendingHint_blank]
  cases client.pendingHint query with
  | error cause => rfl
  | fault cause => rfl
  | ok hint =>
    have here : (Chunk.blank parities)[query.chunk]? = parities[query.chunk]?.map fun _ => 0 := by
      rw [← List.getElem?_map, List.map_const']
      rfl
    show Outcome.bind (.ok hint.bare) _ = _ <$> Outcome.bind (.ok hint) _
    simp only [Outcome.bind, Chunk.length_blank, params_blank, here]
    split
    · rfl
    · cases parities[query.chunk]? with
      | none => rfl
      | some parity => exact congrArg Outcome.ok UInt64.xor_zero

theorem nextBackup_blank (client : Client σ K) (chunk : Nat) :
    client.blank.nextBackup chunk
      = (client.nextBackup chunk).map fun found => (found.1.bare, found.2) := by
  have there (position : Nat) : client.blank.tables.backup? chunk position
      = (client.tables.backup? chunk position).map Hint.bare := Tables.backup?_bare ..
  simp only [nextBackup, params_blank, consumed_blank, there]
  split
  · rw [Option.map_map, Option.map_map]
    rfl
  · rfl

theorem shadows_settle (query : Query) (word : UInt64) :
    Shadows (σ := σ) (K := K) id (settle query word) (settle query 0) := by
  intro client
  refine ⟨rfl, ?_⟩
  simp only [settle, Action.update, blank, Cache.blank_insert]

theorem shadows_refresh (query : Query) (word : UInt64) :
    Shadows (σ := σ) (K := K) id (refresh query word) (refresh query 0) := by
  intro client
  simp only [refresh, nextBackup_blank]
  cases client.nextBackup query.chunk with
  | none => exact ⟨rfl, by simp only [Option.map_none, blank, Tables.retire_bare]⟩
  | some found =>
    -- Programming does not look at the parity, and zero adds nothing to it.
    have fresh : (found.1.bare.program query.index).xorParity 0
        = ((found.1.program query.index).xorParity word).bare := by
      simp only [Hint.xorParity, Hint.program, Hint.bare, UInt64.xor_zero]
    refine ⟨rfl, ?_⟩
    simp only [Option.map_some, blank, Tables.install_bare, Tables.takeBackup_bare, fresh]

theorem shadows_recover (query : Query) (parities : List UInt64) :
    Shadows (σ := σ) (K := K) (fun _ => 0) (recover query parities)
      (recover query (Chunk.blank parities)) := by
  refine Shadows.bind (.read fun client => answer_blank client query parities) fun word => ?_
  refine Shadows.bind (shadows_settle query word) fun _ => ?_
  exact Shadows.bind (shadows_refresh query word) fun _ => .pure

theorem shadows_processResponse (response : Bytes) :
    Shadows (σ := σ) (K := K) (fun _ => 0) (processResponse response)
      (processResponse (Words.blank response)) := by
  have pending (client : Client σ K) : client.blank.pendingQuery = id <$> client.pendingQuery := by
    rw [pendingQuery, pendingQuery, pending_blank]
    cases client.pending with
    | none => rfl
    | some query => rfl
  have decoded : Outcome.ofExcept (Words.decode (Words.blank response))
      = Chunk.blank <$> Outcome.ofExcept (Words.decode response) := by
    rw [Words.decode_blank]
    cases Words.decode response with
    | ok parities => rfl
    | error cause => rfl
  refine Shadows.bind (.read pending) fun query => ?_
  rw [decoded]
  exact Shadows.bind (.done _) fun parities => shadows_recover query parities

theorem shadows_discard : Shadows id (discard (σ := σ) (K := K)) discard := by
  intro client
  cases pending : client.pending with
  | none =>
    rw [discard_of_idle pending, discard_of_idle (client.pending_blank.trans pending)]
    exact ⟨rfl, rfl⟩
  | some query =>
    rw [discard_of_pending pending, discard_of_pending (client.pending_blank.trans pending)]
    refine ⟨rfl, ?_⟩
    rw [retired, retired, blank, blank, Tables.retire_bare]

theorem Shadows.discardOnError {seen : α → β} {action : Act σ K α} {shadow : Act σ K β}
    (shadows : Shadows seen action shadow) :
    Shadows seen (discardOnError action) (discardOnError shadow) := by
  refine Shadows.bind shadows.attempt fun ended => ?_
  cases ended with
  | ok value => exact .pure
  | error cause => exact Shadows.bind shadows_discard fun _ => .done (.error cause)

theorem Reply.shadows_toAction (reply : Reply Bytes) :
    Shadows (σ := σ) (K := K) Words.blank reply.toAction reply.blank.toAction := by
  intro client
  refine ⟨?_, rfl⟩
  cases told : reply.result with
  | ok response => simp [Reply.toAction, Reply.blank, Reply.ofExcept, told]; rfl
  | error cause => simp [Reply.toAction, Reply.blank, Reply.ofExcept, told]; rfl

theorem shadows_exchange (respond : Bytes → Reply Bytes) (bytes : Bytes) :
    Shadows (σ := σ) (K := K) (fun _ => 0) (exchange respond bytes)
      (exchange (fun bytes => (respond bytes).blank) bytes) :=
  Shadows.bind (Reply.shadows_toAction (respond bytes)) shadows_processResponse

section Queries

variable [Prf K]

/-- What is sent depends on no parity. -/
theorem prepare_blank (client : Client σ K) (query : Query) :
    client.blank.prepare query = id <$> client.prepare query := by
  rw [Outcome.id_map, prepare, prepare, pendingHint_blank]
  cases client.pendingHint query with
  | error cause => rfl
  | fault cause => rfl
  | ok hint =>
    show Outcome.bind (.ok hint.bare) _ = Outcome.bind (.ok hint) _
    simp only [Outcome.bind, params_blank, Hint.trace?_bare]

theorem shadows_select (index : Nat) :
    Shadows (σ := σ) (K := K) id (select index) (select index) := by
  intro client
  have contains : client.blank.cache.contains index = client.cache.contains index :=
    client.cache.contains_blank index
  have through (chunk chunkSize : Nat) : client.blank.tables.firstThrough index chunk chunkSize
      = client.tables.firstThrough index chunk chunkSize := client.tables.firstThrough_bare ..
  -- None of the guards looks at a word, and hints are found by their keys and points.
  unfold select
  dsimp only
  rw [pending_blank, params_blank, contains, through]
  by_cases busy : client.pending.isSome = true
  · rw [if_pos busy, if_pos busy]
    exact ⟨rfl, rfl⟩
  rw [if_neg busy, if_neg busy]
  by_cases past : client.params.dbSize ≤ index
  · rw [if_pos past, if_pos past]
    exact ⟨rfl, rfl⟩
  rw [if_neg past, if_neg past]
  by_cases known : client.cache.contains index = true
  · rw [if_pos known, if_pos known]
    exact ⟨rfl, rfl⟩
  rw [if_neg known, if_neg known]
  by_cases noWords : client.params.chunkSize = 0
  · rw [if_pos noWords, if_pos noWords]
    exact ⟨rfl, rfl⟩
  rw [if_neg noWords, if_neg noWords]
  cases client.tables.firstThrough index (client.params.chunkOf index) client.params.chunkSize with
  | none => exact ⟨rfl, rfl⟩
  | some slot => exact ⟨rfl, rfl⟩

theorem shadows_randomQuery [RandomSource σ] :
    Shadows (σ := σ) (K := K) id randomQuery randomQuery := by
  intro client
  have size : client.blank.cache.size = client.cache.size := client.cache.size_blank
  have draw (size limit : Nat) : drawUncached client.blank.cache size limit client.source
      = drawUncached client.cache size limit client.source := client.cache.drawUncached_blank ..
  -- Draws are compared with the indices that are known, not with their words.
  unfold randomQuery
  dsimp only
  rw [pending_blank, params_blank, source_blank, size, draw]
  by_cases busy : client.pending.isSome = true
  · rw [if_pos busy, if_pos busy]
    exact ⟨rfl, rfl⟩
  rw [if_neg busy, if_neg busy]
  by_cases all : client.params.dbSize ≤ client.cache.size
  · rw [if_pos all, if_pos all]
    exact ⟨rfl, rfl⟩
  rw [if_neg all, if_neg all]
  cases (drawUncached client.cache client.params.dbSize drawLimit client.source).1 with
  | none => exact ⟨rfl, rfl⟩
  | some index =>
    exact shadows_select index { client with
      source := (drawUncached client.cache client.params.dbSize drawLimit client.source).2 }

theorem shadows_query (index : Nat) :
    Shadows (σ := σ) (K := K) id (Client.query index) (Client.query index) := by
  refine Shadows.bind (shadows_select index) fun query => ?_
  exact Shadows.bind (.read fun client => prepare_blank client query) fun _ => .pure

theorem shadows_randomQueryBytes [RandomSource σ] :
    Shadows (σ := σ) (K := K) id randomQueryBytes randomQueryBytes := by
  refine Shadows.bind shadows_randomQuery fun query => ?_
  exact Shadows.bind (.read fun client => prepare_blank client query) fun _ => .pure

theorem shadows_retrieve (index : Nat) (respond : Bytes → Reply Bytes) :
    Shadows (σ := σ) (K := K) (fun _ => 0) (retrieve index respond)
      (retrieve index fun bytes => (respond bytes).blank) := by
  have kept (client : Client σ K) : (Outcome.ok (client.blank.cached index) : Outcome Error _)
      = Option.map (fun _ => 0) <$> Outcome.ok (client.cached index) := by
    rw [cached_blank]
    rfl
  refine Shadows.bind (.read kept) fun known => ?_
  cases known with
  | some word => exact .pure
  | none =>
    refine Shadows.bind (shadows_query index) fun bytes => ?_
    exact (shadows_exchange respond bytes).discardOnError

theorem shadows_rebuild [KeySource σ K] (stream : List Chunk) :
    Shadows (σ := σ) (K := K) id (rebuild stream) (rebuild (stream.map Chunk.blank)) := by
  intro client
  -- Fresh hints have no parity yet: the tables are their own shadow.
  have read : Tables.absorbStream client.params 0 (stream.map Chunk.blank)
        (Tables.draw (K := K) client.params client.source).1
      = Tables.bare <$> Tables.absorbStream client.params 0 stream
        (Tables.draw (K := K) client.params client.source).1 := by
    rw [← Tables.absorbStream_bare, Tables.bare_draw]
  unfold rebuild
  dsimp only
  rw [params_blank, source_blank, read]
  cases Tables.absorbStream client.params 0 stream
      (Tables.draw (K := K) client.params client.source).1 with
  | ok tables => exact ⟨rfl, rfl⟩
  | error cause => exact ⟨rfl, rfl⟩
  | fault cause => exact ⟨rfl, rfl⟩

end Queries

end Client

open Client

/-- The shadow of an operation does what the operation does, but for the words. -/
theorem Operation.shadows [Prf K] [RandomSource σ] [KeySource σ K] (operation : Operation) :
    Shadows (σ := σ) (K := K) Result.blank operation.act operation.blank.act := by
  cases operation with
  | select index => exact (shadows_select index).map fun _ => rfl
  | randomQuery => exact shadows_randomQuery.map fun _ => rfl
  | query index => exact (shadows_query index).map fun _ => rfl
  | randomQueryBytes => exact shadows_randomQueryBytes.map fun _ => rfl
  | prepare handle =>
    exact Shadows.map (.read fun client => prepare_blank client handle) fun _ => rfl
  | recover handle parities => exact (shadows_recover handle parities).map fun _ => rfl
  | processResponse response => exact (shadows_processResponse response).map fun _ => rfl
  | retrieve index respond => exact (shadows_retrieve index respond).map fun _ => rfl
  | discard => exact shadows_discard.map fun _ => rfl
  | rebuild stream => exact (shadows_rebuild stream).map fun _ => rfl

end PrivateRetrieval

/-
Rounds in front of a server.

A round asks for a random word, and after an error that fresh hints cure the hints are
built again.  Hints run out and random indices are missed, but whatever was answered to a
session before, in front of a server it goes on until it knows all words:

* **`Client.Steady`** — client and server share the number of words, and the words that are
  kept have distinct indices; no change ends this;
* **`Client.Proceeds`** — a round that begins without a pending query: what the server answers
  is taken, what fails is cured, and another word is known unless the index was missed;
* **`Client.afterRound`**, **`Client.rounds`** — where the next round begins, and all of them;
* **`Client.never_stuck`** — every round of a drive proceeds, and the drive ends with its count,
  or before that with all words known.
-/
import PrivateRetrieval.Client.Drive
import PrivateRetrieval.Proofs.Conversation
import PrivateRetrieval.Proofs.WriteOnce

namespace PrivateRetrieval

variable {σ K : Type} [Prf K]

namespace Client

section Rounds

variable [RandomSource σ]

/-- Whatever is drawn from the source as far as draws are made, its word is known. -/
def Vain (client : Client σ K) : Prop :=
  ∀ position < drawLimit,
    (client.cached (drawAt client.params.dbSize client.source position)).isSome

variable [KeySource σ K]

/-- The state in which the next round begins, if there is one: that of a round with a word, or
that of the build after an error that fresh hints cure. -/
def afterRound (s : Server) (client : Client σ K) : Option (Client σ K) :=
  let ended := round s client
  let built := rebuild s.chunks ended.state
  match ended.outcome with
  | .ok _ => some ended.state
  | .error cause =>
    if cause.curedByRebuild ∧ built.outcome = .ok () then some built.state else none
  | .fault _ => none

/-- The states in which the rounds of a drive begin. -/
def rounds (s : Server) : (count : Nat) → Client σ K → List (Client σ K)
  | 0, _ => []
  | count + 1, client => client :: match afterRound s client with
    | some next => rounds s count next
    | none => []

/-- A round that has a query to send. -/
def asks (client : Client σ K) : Bool :=
  match (randomQueryBytes client).outcome with
  | .ok _ => true
  | _ => false

/-- What a round does that begins in this state. -/
structure Proceeds (s : Server) (client : Client σ K) : Prop where
  idle : client.pending = none
  /-- The server answers every query, and its answer is taken, even if it costs a hint. -/
  asked : ∀ {index : Nat} {bytes : Bytes}, (randomQueryBytes client).outcome = .ok (index, bytes) →
    ∃ response, (s.respond bytes).result = .ok response
      ∧ let taken := processResponse response (randomQueryBytes client).state
        ((∃ word, taken.outcome = .ok word)
          ∨ ∃ chunk, taken.outcome = .error (.backupsExhausted chunk index))
        ∧ taken.state = (round s client).state
  /-- There is no query for an index that is missed, or if no index is left. -/
  refused : ∀ {cause : Error}, (randomQueryBytes client).outcome = .error cause →
    (∃ index, cause = .hintMiss index) ∨ cause = .allCached
  endless : ∀ {cause : Fault}, (randomQueryBytes client).outcome = .fault cause →
    cause = .endlessDraws ∧ client.Vain
  ends : (round s client).state.pending = none
  grows : (round s client).state.cache.size = client.cache.size + if client.asks then 1 else 0
  rebuilds : (rebuild s.chunks (round s client).state).outcome = .ok ()
  /-- Fresh hints change neither of these. -/
  goesOn : ∀ {next : Client σ K}, afterRound s client = some next →
    next.pending = none ∧ next.cache = (round s client).state.cache
  stops : afterRound s client = none →
    ((round s client).outcome = .error .allCached ∧ (round s client).state = client
      ∧ ∀ index < s.words.size, (client.cached index).isSome)
    ∨ (round s client).outcome = .fault .endlessDraws ∧ client.Vain

end Rounds

variable {s : Server} {client next : Client σ K} {query : Query} {word : UInt64}

/-! ### What holds between rounds -/

/-- A session in front of a server of as many words, with distinct indices in its cache. -/
structure Steady (s : Server) (client : Client σ K) : Prop where
  facing : client.Facing s
  keyed : client.cache.Keyed client.params.dbSize

section Steady

variable [KeySource σ K]

theorem Change.steady {peer : Peer σ K} {marks : List Milestone}
    (change : Change peer client marks next) (steady : client.Steady s) : next.Steady s :=
  ⟨change.facing steady.facing, change.keyed steady.facing.consistent steady.keyed⟩

theorem Steady.act [RandomSource σ] (steady : client.Steady s) (operation : Operation) :
    (operation.act client).state.Steady s :=
  (Operation.path (operation.supplied_any client)).invariant Change.steady steady

/-- Whatever was answered before, a session that was set up for a database of as many words is
steady. -/
theorem steady_after [RandomSource σ] {p : Params} (derived : p.Derived s.words.size)
    (few : p.chunkCount < UInt32.size) {source : σ} {stream : List Chunk}
    (ready : (setup (K := K) p source stream).outcome = .ok ()) (run : List Operation) :
    ((setup (K := K) p source stream).state.after run).Steady s := by
  refine (path_any _ run).invariant Change.steady ⟨facing_after derived few ready [], ?_⟩
  obtain ⟨tables, -, left⟩ := setup_of_ok ready
  rw [left]
  exact .empty _

end Steady

/-- No index is left just if as many words are known as there are. -/
theorem Steady.all_of_full (steady : client.Steady s)
    (full : client.params.dbSize ≤ client.cache.size) :
    ∀ index < s.words.size, (client.cached index).isSome := by
  rw [← steady.facing.same]
  exact steady.keyed.full_iff.mp (Nat.le_antisymm steady.keyed.size_le full)

omit [Prf K] in
/-- A query that has its answer is pending no more, and its word is kept. -/
theorem Answered.settled {outcome : Outcome Error UInt64} {state : Client σ K}
    (answered : client.Answered query word outcome state) :
    state.pending = none ∧ state.cache = client.cache.insert query.index word
      ∧ ((∃ word, outcome = .ok word)
        ∨ outcome = .error (.backupsExhausted query.chunk query.index)) := by
  rcases answered with ⟨hint, position, -, ended, rfl⟩ | ⟨-, ended, rfl⟩
  · exact ⟨rfl, rfl, .inl ⟨word, ended⟩⟩
  · exact ⟨rfl, rfl, .inr ended⟩

variable [RandomSource σ]

/-! ### One round -/

theorem round_of_answer {index : Nat} {bytes response : Bytes}
    (asked : (randomQueryBytes client).outcome = .ok (index, bytes))
    (responds : (s.respond bytes).result = .ok response) :
    (round s client).outcome
        = (fun word => (index, word))
          <$> (processResponse response (randomQueryBytes client).state).outcome
      ∧ (round s client).state
        = (processResponse response (randomQueryBytes client).state).state := by
  have carried : ((s.respond bytes).toAction (randomQueryBytes client).state).outcome
      = .ok response := by
    rw [Reply.toAction, responds]
    rfl
  rw [round, Action.bind_of_ok asked]
  dsimp only
  rw [Action.bind_of_ok carried, Action.bind_pure_apply]
  exact ⟨rfl, rfl⟩

variable [KeySource σ K]

/-- A query that is sent has an answer, and this makes the cache larger. -/
theorem Steady.asked (steady : client.Steady s) {index : Nat} {bytes : Bytes}
    (asked : (randomQueryBytes client).outcome = .ok (index, bytes)) :
    ∃ response chunk, (s.respond bytes).result = .ok response
      ∧ let taken := processResponse response (randomQueryBytes client).state
        ((∃ word, taken.outcome = .ok word)
          ∨ taken.outcome = .error (.backupsExhausted chunk index))
        ∧ taken.state.pending = none ∧ taken.state.cache.size = client.cache.size + 1 := by
  obtain ⟨query, selected⟩ := Action.ok_of_bind_ok asked
  obtain ⟨source, offsets, waiting, -, prepared, eq⟩ :=
    steady.facing.randomQueryBytes_of_ok selected
  rw [eq] at asked ⊢
  cases asked
  obtain ⟨response, word, responds, answered⟩ :=
    waiting.answered (pending_awaiting _ query) prepared
  obtain ⟨idle, kept, ended⟩ := answered.settled
  refine ⟨response, query.chunk, responds, ended, idle, ?_⟩
  -- A query that is pending is for an index that is new.
  have fresh := (waiting.consistent.awaits (pending_awaiting _ query)).fresh
  rw [kept]
  exact Cache.size_insert fresh

omit [KeySource σ K] in
theorem Steady.refused (steady : client.Steady s) (idle : client.pending = none) {cause : Error}
    (refused : (randomQueryBytes client).outcome = .error cause) :
    ((∃ index, cause = .hintMiss index)
        ∧ ∃ source, (randomQueryBytes client).state = { client with source })
      ∨ cause = .allCached ∧ (randomQueryBytes client).state = client
        ∧ ∀ index < s.words.size, (client.cached index).isSome := by
  have failed := randomQuery_error_of_bytes refused
  rw [randomQueryBytes_state]
  by_cases room : client.cache.size < client.params.dbSize
  · obtain ⟨rejected, index, -, missed, moved⟩ :=
      randomQuery_error_of_room steady.facing.consistent.valid idle room failed
    exact .inl ⟨⟨index, missed⟩, _, moved⟩
  · have full := Nat.le_of_not_lt room
    rw [randomQuery_of_full idle full] at failed ⊢
    exact .inr ⟨(Outcome.error.inj failed).symm, rfl, steady.all_of_full full⟩

theorem Steady.endless (steady : client.Steady s) (idle : client.pending = none) {cause : Fault}
    (failed : (randomQueryBytes client).outcome = .fault cause) :
    cause = .endlessDraws ∧ client.Vain
      ∧ ∃ source, (randomQueryBytes client).state = { client with source } := by
  rw [randomQueryBytes_state]
  have room : client.cache.size < client.params.dbSize := by
    refine Nat.lt_of_not_le fun full => ?_
    have ended : (randomQuery client).outcome = .error .allCached := by
      rw [randomQuery_of_full idle full]
    rw [randomQueryBytes, Action.bind_of_error ended] at failed
    exact absurd failed (by simp)
  rcases randomQuery_ends steady.facing.consistent.valid idle room with
    ⟨rejected, index, -, ⟨query, -, selected⟩ | ⟨missed, -⟩⟩ | ⟨vain, ended⟩
  · obtain ⟨source, offsets, -, -, -, eq⟩ := steady.facing.randomQueryBytes_of_ok selected
    rw [eq] at failed
    exact absurd failed (by simp)
  · rw [randomQueryBytes, Action.bind_of_error missed] at failed
    exact absurd failed (by simp)
  · rw [randomQueryBytes, Action.bind_of_fault ended] at failed
    obtain ⟨source, ⟨query, -, eq⟩ | ⟨moved, -⟩⟩ := randomQuery_cases client
    · rw [eq] at ended
      exact absurd ended (by simp)
    · exact ⟨(Outcome.fault.inj failed).symm, vain, source, moved⟩

/-- What a round leaves, and the ways in which it can end. -/
theorem Steady.round_step (steady : client.Steady s) (idle : client.pending = none) :
    (round s client).state.Steady s ∧ (round s client).state.pending = none
      ∧ (round s client).state.cache.size = client.cache.size + (if client.asks then 1 else 0)
      ∧ ((∃ found, (round s client).outcome = .ok found)
        ∨ (∃ cause, (round s client).outcome = .error cause ∧ cause.curedByRebuild)
        ∨ ((round s client).outcome = .error .allCached ∧ (round s client).state = client
          ∧ ∀ index < s.words.size, (client.cached index).isSome)
        ∨ (round s client).outcome = .fault .endlessDraws ∧ client.Vain) := by
  have first : (randomQueryBytes client).state.Steady s := by
    have after := steady.act .randomQueryBytes
    rwa [Operation.act, Action.map_apply] at after
  rw [asks]
  -- How a round ends is decided by its query: an answer to it is always taken.
  cases asked : (randomQueryBytes client).outcome with
  | ok found =>
    obtain ⟨index, bytes⟩ := found
    obtain ⟨response, chunk, responds, ended, idle', larger⟩ := steady.asked asked
    obtain ⟨outcome, state⟩ := round_of_answer asked responds
    rw [outcome, state]
    refine ⟨?_, idle', larger, ?_⟩
    · have after := first.act (.processResponse response)
      rwa [Operation.act, Action.map_apply] at after
    · rcases ended with ⟨word, ended⟩ | ended
      · rw [ended]
        exact .inl ⟨_, rfl⟩
      · rw [ended]
        exact .inr (.inl ⟨_, rfl, rfl⟩)
  | error cause =>
    rw [round, Action.bind_of_error asked]
    refine ⟨first, ?_⟩
    rcases steady.refused idle asked with ⟨⟨index, rfl⟩, source, moved⟩ | ⟨rfl, same, all⟩
    · rw [moved]
      exact ⟨idle, rfl, .inr (.inl ⟨_, rfl, rfl⟩)⟩
    · rw [same]
      exact ⟨idle, rfl, .inr (.inr (.inl ⟨rfl, rfl, all⟩))⟩
  | fault cause =>
    rw [round, Action.bind_of_fault asked]
    obtain ⟨rfl, vain, source, moved⟩ := steady.endless idle asked
    refine ⟨first, ?_⟩
    rw [moved]
    exact ⟨idle, rfl, .inr (.inr (.inr ⟨rfl, vain⟩))⟩

theorem afterRound_cases (goesOn : afterRound s client = some next) :
    (∃ found, (round s client).outcome = .ok found ∧ next = (round s client).state)
    ∨ ∃ cause, (round s client).outcome = .error cause ∧ cause.curedByRebuild
      ∧ (rebuild s.chunks (round s client).state).outcome = .ok ()
      ∧ next = (rebuild s.chunks (round s client).state).state := by
  unfold afterRound at goesOn
  dsimp only at goesOn
  split at goesOn
  · rename_i found outcome
    exact .inl ⟨found, outcome, (Option.some.inj goesOn).symm⟩
  · rename_i cause outcome
    split at goesOn
    · rename_i cured
      exact .inr ⟨cause, outcome, cured.1, cured.2, (Option.some.inj goesOn).symm⟩
    · exact absurd goesOn (by simp)
  · exact absurd goesOn (by simp)

/-- Every round that begins without a pending query proceeds. -/
theorem Steady.proceeds (steady : client.Steady s) (idle : client.pending = none) :
    client.Proceeds s := by
  obtain ⟨after, ends, grows, ways⟩ := steady.round_step idle
  have rebuilds := after.facing.rebuild_ok
  refine ⟨idle, ?_, ?_, ?_, ends, grows, rebuilds, ?_, ?_⟩
  · intro index bytes asked
    obtain ⟨response, chunk, responds, ended, -, -⟩ := steady.asked asked
    exact ⟨response, responds, ended.imp_right fun spent => ⟨chunk, spent⟩,
      (round_of_answer asked responds).2.symm⟩
  · intro cause refused
    exact (steady.refused idle refused).imp And.left And.left
  · intro cause failed
    obtain ⟨endless, vain, -⟩ := steady.endless idle failed
    exact ⟨endless, vain⟩
  · intro next goesOn
    rcases afterRound_cases goesOn with ⟨found, -, rfl⟩ | ⟨cause, -, -, -, rfl⟩
    · exact ⟨ends, rfl⟩
    · obtain ⟨tables, -, built⟩ := rebuild_of_ok rebuilds
      rw [built]
      exact ⟨rfl, rfl⟩
  · intro stops
    rcases ways with ⟨found, outcome⟩ | ⟨cause, outcome, cured⟩ | full | vain
    · simp [afterRound, outcome] at stops
    · simp [afterRound, outcome, cured, rebuilds] at stops
    · exact .inl full
    · exact .inr vain

theorem Steady.kept (steady : client.Steady s) (idle : client.pending = none)
    (goesOn : afterRound s client = some next) : next.Steady s := by
  obtain ⟨after, -⟩ := steady.round_step idle
  rcases afterRound_cases goesOn with ⟨found, -, rfl⟩ | ⟨cause, -, -, -, rfl⟩
  · exact after
  · have built := after.act (.rebuild s.chunks)
    rwa [Operation.act, Action.map_apply] at built

/-! ### Any number of rounds -/

/-- A drive goes on with the next round, behind the result of the first. -/
theorem drive_of_next (goesOn : afterRound s client = some next) (count : Nat) :
    ∃ result, Outcome.ofExcept result = (round s client).outcome
      ∧ (∀ cause, result = .error cause → cause.curedByRebuild)
      ∧ (drive s (count + 1) client).outcome = (result :: ·) <$> (drive s count next).outcome
      ∧ (drive s (count + 1) client).state = (drive s count next).state := by
  rcases afterRound_cases goesOn with ⟨found, outcome, rfl⟩ | ⟨cause, outcome, cured, built, rfl⟩
  · have tried := Action.attempt_of_ok outcome
    refine ⟨.ok found, outcome.symm, by simp, ?_⟩
    rw [drive, Action.bind_of_ok (congrArg Step.outcome tried), tried]
    dsimp only
    rw [Action.bind_pure_apply]
    exact ⟨rfl, rfl⟩
  · have tried := Action.attempt_of_error outcome
    have mended := Action.attempt_of_ok built
    refine ⟨.error cause, outcome.symm, by rintro _ ⟨⟩; exact cured, ?_⟩
    rw [drive, Action.bind_of_ok (congrArg Step.outcome tried), tried]
    dsimp only
    rw [if_pos cured, Action.bind_of_ok (congrArg Step.outcome mended), mended]
    dsimp only
    rw [Action.bind_pure_apply]
    exact ⟨rfl, rfl⟩

theorem drive_of_error {cause : Error} (outcome : (round s client).outcome = .error cause)
    (final : cause.curedByRebuild = false) (count : Nat) :
    (drive s (count + 1) client).outcome = .ok [.error cause]
      ∧ (drive s (count + 1) client).state = (round s client).state := by
  have tried := Action.attempt_of_error outcome
  rw [drive, Action.bind_of_ok (congrArg Step.outcome tried), tried]
  dsimp only
  rw [if_neg (by simp [final])]
  exact ⟨rfl, rfl⟩

theorem drive_of_fault {cause : Fault} (outcome : (round s client).outcome = .fault cause)
    (count : Nat) :
    (drive s (count + 1) client).outcome = .fault cause
      ∧ (drive s (count + 1) client).state = (round s client).state := by
  have tried := Action.attempt_of_fault outcome
  rw [drive, Action.bind_of_fault (congrArg Step.outcome tried), tried]
  exact ⟨rfl, rfl⟩

/-- What becomes of a drive. -/
structure Unstuck (s : Server) (count : Nat) (client : Client σ K) : Prop where
  proceeds : ∀ found ∈ rounds s count client, found.Proceeds s
  idle : (drive s count client).state.pending = none
  grows : (drive s count client).state.cache.size
    = client.cache.size + (rounds s count client).countP asks
  /-- It yields the results of its rounds, the last of which may be that all words are known,
  unless draws are in vain. -/
  ends : (∃ results, (drive s count client).outcome = .ok results
      ∧ results.map Outcome.ofExcept
        = (rounds s count client).map (fun found => (round s found).outcome)
      ∧ ((results.length = count ∧ ∀ cause, .error cause ∈ results → cause.curedByRebuild)
        ∨ (∃ earlier, results = earlier ++ [.error .allCached]
            ∧ ∀ cause, .error cause ∈ earlier → cause.curedByRebuild)
          ∧ ∀ index < s.words.size, ((drive s count client).state.cached index).isSome))
    ∨ (drive s count client).outcome = .fault .endlessDraws
      ∧ ∃ found ∈ rounds s count client, found.Vain

theorem Unstuck.cons {count : Nat} (first : client.Proceeds s)
    (goesOn : afterRound s client = some next) (rest : next.Unstuck s count) :
    client.Unstuck s (count + 1) := by
  obtain ⟨result, own, cured, outcome, state⟩ := drive_of_next goesOn count
  have starts : rounds s (count + 1) client = client :: rounds s count next := by
    rw [rounds, goesOn]
  constructor
  · rw [starts]
    exact List.forall_mem_cons.mpr ⟨first, rest.proceeds⟩
  · rw [state]
    exact rest.idle
  · rw [state, starts, rest.grows, (first.goesOn goesOn).2, first.grows, List.countP_cons]
    omega
  · rw [outcome, state, starts]
    rcases rest.ends with ⟨results, yields, each, ways⟩ | ⟨failed, found, member, vain⟩
    · refine .inl ⟨result :: results, by rw [yields]; rfl, ?_, ?_⟩
      · rw [List.map_cons, List.map_cons, own, each]
      · -- The drive has gone on, so its first result is no error that ends one.
        have all {later : List (Except Error (Nat × UInt64))}
            (here : ∀ cause, .error cause ∈ later → cause.curedByRebuild) :
            ∀ cause, .error cause ∈ result :: later → cause.curedByRebuild := by
          intro cause member
          rcases List.mem_cons.mp member with own | member
          · exact cured cause own.symm
          · exact here cause member
        rcases ways with ⟨length, here⟩ | ⟨⟨earlier, rfl, here⟩, known⟩
        · exact .inl ⟨congrArg (· + 1) length, all here⟩
        · exact .inr ⟨⟨result :: earlier, rfl, all here⟩, known⟩
    · exact .inr ⟨by rw [failed]; rfl, found, List.mem_cons_of_mem _ member, vain⟩

theorem Unstuck.single (first : client.Proceeds s) (stops : afterRound s client = none)
    (count : Nat) : client.Unstuck s (count + 1) := by
  have starts : rounds s (count + 1) client = [client] := by
    rw [rounds, stops]
  have state : (drive s (count + 1) client).state = (round s client).state := by
    rcases first.stops stops with ⟨outcome, -⟩ | ⟨outcome, -⟩
    · exact (drive_of_error outcome rfl count).2
    · exact (drive_of_fault outcome count).2
  constructor
  · rw [starts]
    exact List.forall_mem_singleton.mpr first
  · rw [state]
    exact first.ends
  · rw [state, starts, first.grows, List.countP_singleton]
  · rw [state, starts]
    rcases first.stops stops with ⟨outcome, same, known⟩ | ⟨outcome, vain⟩
    · refine .inl ⟨[.error .allCached], (drive_of_error outcome rfl count).1, ?_, .inr ⟨?_, ?_⟩⟩
      · rw [List.map_singleton, List.map_singleton, outcome]
        rfl
      · exact ⟨[], rfl, fun _ member => absurd member List.not_mem_nil⟩
      · rw [same]
        exact known
    · exact .inr ⟨(drive_of_fault outcome count).1, client, List.mem_singleton_self client, vain⟩

theorem Steady.unstuck (steady : client.Steady s) (idle : client.pending = none) (count : Nat) :
    client.Unstuck s count := by
  -- What the next round needs of its state is what the first has left: it is steady and idle.
  induction count generalizing client with
  | zero => exact ⟨by simp [rounds], idle, rfl, .inl ⟨[], rfl, rfl, .inl ⟨rfl, by simp⟩⟩⟩
  | succ count ih =>
    have first := steady.proceeds idle
    cases goesOn : afterRound s client with
    | some next => exact .cons first goesOn (ih (steady.kept idle goesOn) (first.goesOn goesOn).1)
    | none => exact .single first goesOn count

/-- **A session does not get stuck.**  Whatever was asked of a session and whatever was answered,
as long as no query is pending, rounds in front of a server of as many words are answered one
after the other, what goes wrong in one is cured before the next, and the only error with which
they can stop is that there is nothing left to ask. -/
theorem never_stuck {p : Params} (derived : p.Derived s.words.size)
    (few : p.chunkCount < UInt32.size) {source : σ} {stream : List Chunk}
    (ready : (setup (K := K) p source stream).outcome = .ok ()) (run : List Operation)
    (idle : ((setup (K := K) p source stream).state.after run).pending = none) (count : Nat) :
    ((setup (K := K) p source stream).state.after run).Unstuck s count :=
  (steady_after derived few ready run).unstuck idle count

/-- Three words are known from wrong answers, and both backup hints have been used. The last word
costs its hint, and after the build there is none left to ask for. -/
theorem never_stuck_until_all_known :
    let run := [.select 0, .recover ⟨0, 0, 0⟩ [0, 0], .select 2, .recover ⟨2, 1, 0⟩ [0, 0],
      .select 3, .recover ⟨3, 1, 1⟩ [0, 0]]
    let driven := drive Small.server 6 (Small.client.after run)
    driven.outcome = .ok [.error (.backupsExhausted 0 1), .error .allCached]
      ∧ driven.state.pending = none ∧ driven.state.cache.size = 4 := by
  intro run driven
  have unstuck : (Small.client.after run).Unstuck Small.server 6 := never_stuck (K := LiteralKey)
    (s := Small.server) Small.derived (by decide) Small.setup_ok run (by decide) 6
  have three : (Small.client.after run).cache.size = 3 := by decide
  have one : (rounds Small.server 6 (Small.client.after run)).countP asks = 1 := by decide
  refine ⟨by decide, unstuck.idle, ?_⟩
  rw [unstuck.grows, three, one]

end Client

end PrivateRetrieval

/-
A reader with its partial steps made explicit.

The parameters of a reader come from eight bytes that its peer chooses, and everything
else that it computes with comes from the peer as well.  Its program is written once more here,
from the division that gives the number of chunks to the last look-up, with steps that may have
no value.  The branch for a word without a backup hint can be anything in it, since it is
never taken:

* **`Checked.ofSize`**, **`Checked.handshake`** — parameters from a size, and from bytes
  (`Checked.handshake_eq`);
* **`Checked.readDatabase`**, **`Checked.ask`**, **`Checked.fetch`**, **`Checked.program`** — the
  reader, with a `fallback` in place of that branch;
* **`Checked.program_eq`** — with any fallback it does what the reader does.
-/
import PrivateRetrieval.Proofs.Fetching

namespace PrivateRetrieval

/-- If a step is the same, and so is what follows on its value, both in a row are the same. -/
theorem Action.bind_congr {ε σ α β : Type} {action action' : Action ε σ α}
    {next next' : α → Action ε σ β} {state : σ} (same : action state = action' state)
    (later : ∀ value, (action' state).outcome = .ok value →
      next value (action' state).state = next' value (action' state).state) :
    (action >>= next) state = (action' >>= next') state := by
  rw [bind_congr_left same]
  cases outcome : (action' state).outcome with
  | ok value => rw [bind_of_ok outcome, bind_of_ok outcome, later value outcome]
  | error cause => rw [bind_of_error outcome, bind_of_error outcome]
  | fault cause => rw [bind_of_fault outcome, bind_of_fault outcome]

namespace Checked

open Reader (Connection Visit Session onSession onConnection)

/-! ### Parameters -/

/-- The quotient, rounded up. -/
def quotientUp (number divisor : Nat) : Outcome Error Nat := do
  let whole ← quotient number divisor
  let rest ← remainder number divisor
  if rest = 0 then return whole else sum whole 1

/-- Chunks that cover the database, and the given capacities. -/
def withCapacities (dbSize queryBudget primaryCount backupsPerChunk : Nat) :
    Outcome Error Params :=
  if dbSize = 0 then .error .emptyDatabase
  else if primaryCount = 0 ∨ backupsPerChunk = 0 then .error .noHints
  else do
    let chunkSize := sqrtFloor dbSize
    let chunkCount ← quotientUp dbSize chunkSize
    return { dbSize, chunkSize, chunkCount, queryBudget, primaryCount, backupsPerChunk }

/-- Chunks and capacities that follow from the number of words. Both rounded factors and their
multiples have to fit into a word. -/
def ofSize (dbSize : Nat) : Outcome Error Params := do
  let budget ← fit (max 1 (Rounded.ceilRootLog dbSize))
  let logarithm ← fit (max 1 (Rounded.ceilLog dbSize))
  let primary ← product Params.oversampling budget
  let backups ← product Params.oversampling logarithm
  withCapacities dbSize budget primary backups

/-- Parameters from the bytes of a handshake. -/
def handshake (bytes : Bytes) : Outcome Error Params :=
  if bytes.length ≠ wordWidth then .error (.undecodable (.handshakeLength bytes.length))
  else do
    let size ← readWord bytes
    ofSize size.toNat

theorem quotientUp_of_pos {number divisor : Nat} (pos : 0 < divisor)
    (fits : number < UInt64.size) :
    quotientUp number divisor = .ok ((number + (divisor - 1)) / divisor) := by
  have parts := Nat.div_add_mod number divisor
  have below := Nat.mod_lt number pos
  rw [quotientUp, quotient_of_pos pos, ok_bind, remainder_of_pos pos, ok_bind]
  by_cases whole : number % divisor = 0
  · have up : (number + (divisor - 1)) / divisor = number / divisor :=
      Nat.div_eq_of_lt_le (by rw [Nat.mul_comm]; omega) (by rw [Nat.succ_mul, Nat.mul_comm]; omega)
    rw [if_pos whole, up]
    rfl
  · have up : (number + (divisor - 1)) / divisor = number / divisor + 1 :=
      Nat.div_eq_of_lt_le (by rw [Nat.succ_mul, Nat.mul_comm]; omega)
        (by rw [Nat.succ_mul, Nat.succ_mul, Nat.mul_comm]; omega)
    -- There is a rest, so that the quotient is below the number.
    have less := Nat.le_mul_of_pos_left (number / divisor) pos
    rw [if_neg whole, up, sum_of_lt (by omega)]

theorem withCapacities_eq {size budget primary backups : Nat} (small : size < UInt64.size) :
    withCapacities size budget primary backups
      = .ofExcept (Params.withCapacities size budget primary backups) := by
  rw [withCapacities, Params.withCapacities]
  by_cases empty : size = 0
  · rw [if_pos empty, if_pos empty]
    rfl
  rw [if_neg empty, if_neg empty]
  by_cases hintless : primary = 0 ∨ backups = 0
  · rw [if_pos hintless, if_pos hintless]
    rfl
  rw [if_neg hintless, if_neg hintless]
  dsimp only
  rw [quotientUp_of_pos (sqrtFloor_pos (Nat.pos_of_ne_zero empty)) small]
  rfl

theorem ofSize_eq {size : Nat} (small : size < UInt64.size) :
    ofSize size = .ofExcept (Params.ofSize size) := by
  have root := Rounded.ceilRootLog_lt small
  have logarithm := Rounded.ceilLog_lt small
  have budget : Params.oversampling * max 1 (Rounded.ceilRootLog size) < UInt64.size := by
    simp only [Params.oversampling, UInt64.size]
    omega
  have backups : Params.oversampling * max 1 (Rounded.ceilLog size) < UInt64.size := by
    simp only [Params.oversampling, UInt16.size, UInt64.size] at logarithm ⊢
    omega
  have fits {number : Nat} (small : Params.oversampling * number < UInt64.size) :
      fit number = .ok number := by
    refine if_pos (Nat.lt_of_le_of_lt ?_ small)
    exact Nat.le_mul_of_pos_left number (by decide)
  rw [ofSize, fits budget, ok_bind, fits backups, ok_bind, product_of_lt budget, ok_bind,
    product_of_lt backups, ok_bind, withCapacities_eq small]
  rfl

theorem handshake_eq (bytes : Bytes) : handshake bytes = .ofExcept (Handshake.decode bytes) := by
  rw [handshake, Handshake.decode]
  by_cases length : bytes.length = wordWidth
  · have bound := LittleEndian.decode_lt bytes
    rw [length, Words.capacity_wordWidth] at bound
    rw [if_neg (fun differs => differs length), if_neg (fun differs => differs length), readWord_eq,
      ok_bind, List.take_of_length_le (Nat.le_of_eq length), UInt64.toNat_ofNat_of_lt' bound,
      ofSize_eq bound]
  · rw [if_pos length, if_pos length]
    rfl

/-! ### Programs -/

/-- The value of an outcome; its error ends the program. -/
def check {σ α : Type} (outcome : Outcome Error α) : Action Failure σ α :=
  Action.done (outcome.mapError .refused)

/-- The next `count` chunks. -/
def readChunks : (count : Nat) → Action Failure Connection (List Chunk)
  | 0 => return []
  | count + 1 => do
    let message ← Reader.readMessage
    let words ← check (decode message)
    let rest ← readChunks count
    return words :: rest

/-- The handshake, and as many chunks as follow from it. -/
def readDatabase : Action Failure Connection (Params × List Chunk) := do
  let hello ← Reader.readBytes wordWidth
  let params ← check (handshake hello)
  let chunks ← readChunks params.chunkCount
  return (params, chunks)

/-- The first session, with its hints built step by step. -/
def openSession (seed : Bytes) (params : Params) (chunks : List Chunk) :
    Action Failure Connection Session := fun connection =>
  let step : Step Error Session Unit := setup params (Keystream.ofSeed seed) chunks
  { outcome := (step.outcome.mapError .refused).bind fun () => .ok step.state
    state := connection
    events := step.events }

/-- A query for `index`, from fresh hints if the first try missed. -/
def ask (chunks : List Chunk) (index : Nat) : Action Failure Visit Bytes := do
  match ← onSession (query index).attempt with
  | .ok query => return query
  | .error cause =>
    if cause.curedByRebuild then
      Action.report (.rebuilding index cause)
      onSession (rebuild chunks)
      onSession (query index)
    else Reader.refuse cause

/-- One index, with `fallback` for a word that left no backup hint. -/
def fetch (fallback : Nat → Action Failure Visit Unit) (peer : Reader.Peer) (chunks : List Chunk)
    (index : Nat) : Action Failure Visit Unit := do
  let query ← ask chunks index
  onConnection (Reader.writeMessage peer query)
  let response ← onConnection Reader.readMessage
  match ← onSession (processResponse response).attempt with
  | .ok word => onConnection (Reader.print index word)
  | .error cause => if cause.curedByRebuild then fallback index else Reader.refuse cause

/-- One index after another, until the program ends. -/
def fetchAll (fallback : Nat → Action Failure Visit Unit) (peer : Reader.Peer)
    (chunks : List Chunk) : List Nat → Action Failure Visit Unit
  | [] => return ()
  | index :: rest => do
    fetch fallback peer chunks index
    fetchAll fallback peer chunks rest

/-- The whole program, with `fallback` for any word that left no backup hint. -/
def program (fallback : Nat → Action Failure Visit Unit) (entropy : Bytes) (peer : Reader.Peer) :
    Action Failure Connection Unit := do
  Action.report (.connected Host.address)
  let (params, chunks) ← readDatabase
  let session ← openSession (Keystream.ofSeed entropy).drawSeed.1 params chunks
  Action.report (.readerReady params.dbSize params.primaryCount)
  Reader.withSession session
    (fetchAll fallback peer chunks (Reader.wanted.filter (· < params.dbSize)))

/-! ### The offline phase -/

theorem check_eq {σ α : Type} (result : Except Error α) :
    check (.ofExcept result) = (Reader.check result : Action Failure σ α) := rfl

theorem readChunks_eq (count : Nat) : readChunks count = Reader.readChunks count := by
  induction count with
  | zero => rfl
  | succ count ih =>
    rw [readChunks, Reader.readChunks, ih]
    refine congrArg (_ >>= ·) (funext fun message => ?_)
    rw [decode_eq, check_eq]

theorem readDatabase_eq : readDatabase = Reader.readDatabase := by
  rw [readDatabase, Reader.readDatabase]
  refine congrArg (_ >>= ·) (funext fun hello => ?_)
  rw [handshake_eq, check_eq]
  refine congrArg (_ >>= ·) (funext fun params => ?_)
  rw [readChunks_eq]

/-! ### The online phase -/

section Online

variable {p : Params} {known indices : List Nat} {chunks : List Chunk} {index : Nat}
  {visit : Visit} {fallback : Nat → Action Failure Visit Unit} {peer : Reader.Peer}

theorem onSession_congr {α : Type} {checked running : Action Error Session α}
    (same : checked visit.session = running visit.session) :
    onSession checked visit = onSession running visit := by
  rw [onSession, onSession, Action.onPart, Action.onPart, same]

/-- An index is asked for in the same way in any session within its bounds. -/
theorem ask_eq (bounded : Bounded visit.session) (chunks : List Chunk) (index : Nat) :
    ask chunks index visit = Reader.ask chunks index visit := by
  rw [ask, Reader.ask]
  refine Action.bind_congr (onSession_congr (query_agrees bounded index).attempt.same)
    fun result _ => ?_
  cases result with
  | ok query => rfl
  | error cause =>
    dsimp only
    split
    · have missed : Bounded (onSession (Client.query index).attempt visit).state.session := by
        show Bounded ((Client.query index).attempt visit.session).state
        rw [Action.attempt_state]
        exact bounded.along (Operation.path_query visit.session index)
      generalize (onSession (Client.query index).attempt visit).state = later at missed ⊢
      refine Action.bind_congr rfl fun _ _ => ?_
      have built : rebuild chunks later.session = Client.rebuild chunks later.session :=
        (rebuild_eq rfl missed.consistent.valid missed.small missed.counted chunks).1
      refine Action.bind_congr (onSession_congr built) fun _ _ => ?_
      have again : Bounded (Client.rebuild chunks later.session).state := by
        have supplied := Operation.supplied_any later.session (.rebuild chunks)
        have after := missed.along (Operation.path supplied)
        rwa [Operation.act, Action.map_apply] at after
      exact onSession_congr (query_agrees again index).same
    · rfl

/-- With hints left for every word that has been asked for, the fallback is not taken. -/
theorem fetch_eq (ready : Client.Ready p known visit.session) (whole : p.Matches chunks)
    (agenda : Reader.Agenda p known (index :: indices)) :
    fetch fallback peer chunks index visit = Reader.fetch peer chunks index visit := by
  have same := ask_eq ready.bounded chunks index
  rw [fetch, Reader.fetch]
  rcases Reader.ask_cases ready whole agenda with
    ⟨session, events, query, offsets, -, again, selects, -, -, asked⟩ | ⟨-, missed⟩
  · rw [Action.bind_of_step (same.trans asked), Action.bind_of_step asked]
    refine congrArg (Step.behind events) (Action.bind_congr rfl fun _ _ => ?_)
    refine Action.bind_congr rfl fun response _ => ?_
    -- Neither writing nor reading touches the session.
    have agrees := processResponse_agrees (again.waiting selects) response
    refine Action.bind_congr (onSession_congr agrees.attempt.same) fun result taken => ?_
    cases result with
    | ok word => rfl
    | error cause =>
      have fatal : cause.curedByRebuild = false := by
        rcases again.answered selects agenda.left response with
          ⟨refused, refuses, eq⟩ | ⟨word, next, eq, -⟩
        · rw [Reader.onSession_eq (Action.attempt_of_failure eq)] at taken
          cases taken
          exact Reader.fatal_of_refusesAnswer refuses
        · rw [Reader.onSession_eq (Action.attempt_of_step eq)] at taken
          exact absurd taken (by rintro ⟨⟩)
      dsimp only
      rw [fatal]
      rfl
  · rw [Action.bind_of_failure (same.trans missed), Action.bind_of_failure missed]

/-- Between two indices the session is ready, so that none of them takes the fallback. -/
theorem fetchAll_eq (whole : p.Matches chunks) {indices : List Nat} :
    ∀ {known : List Nat} {visit : Visit}, Client.Ready p known visit.session →
      Reader.Agenda p known indices →
      fetchAll fallback peer chunks indices visit = Reader.fetchAll peer chunks indices visit := by
  induction indices with
  | nil =>
    intro known visit _ _
    rfl
  | cons index indices ih =>
    intro known visit ready agenda
    have fetched := Reader.fetch_cases ready whole agenda peer
    rw [fetchAll, Reader.fetchAll]
    refine Action.bind_congr (fetch_eq ready whole agenda) fun _ ended => ?_
    generalize Reader.fetch peer chunks index visit = first at fetched ended ⊢
    cases fetched with
    | missed => exact absurd ended (by rintro ⟨⟩)
    | failed => exact absurd ended (by rintro ⟨⟩)
    | printed asks written printed onward => exact ih onward agenda.later

end Online

/-! ### The whole program -/

section Program

variable {p : Params} (small : p.dbSize < UInt64.size) (own : Params.ofSize p.dbSize = .ok p)
  (entropy : Bytes) (chunks : List Chunk)

include small own

theorem openSession_eq (connection : Connection) :
    openSession (Keystream.ofSeed entropy).drawSeed.1 p chunks connection
      = Reader.openSession (Keystream.ofSeed entropy).drawSeed.1 p chunks connection := by
  have derived : p.Derived p.dbSize := .inl own
  have counted := Params.backupCount_lt_of_ofSize own small
  rw [openSession, Reader.openSession, (setup_eq derived.valid small counted _ chunks).1]

/-- The first session is ready for all indices that are listed. -/
theorem withSession_eq (fallback : Nat → Action Failure Visit Unit) (peer : Reader.Peer)
    {connection : Connection} {session : Session}
    (opened : (Reader.openSession (Keystream.ofSeed entropy).drawSeed.1 p chunks connection).outcome
      = .ok session) :
    Reader.withSession session (fetchAll fallback peer chunks (Reader.listed p.dbSize))
      = Reader.withSession session (Reader.fetchAll peer chunks (Reader.listed p.dbSize)) := by
  obtain ⟨ended, rfl⟩ := Reader.opening_of_opened opened
  obtain ⟨ready, whole⟩ := Reader.ready_opening own small ended
  funext connection
  rw [Reader.withSession, Reader.withSession, fetchAll_eq whole ready (.listed own)]

end Program

/-- **The fallback does not matter.**  Whatever stands in place of the branch for a word without a
backup hint, the program with its partial steps made explicit does what the reader does. -/
theorem program_eq (fallback : Nat → Action Failure Visit Unit) (entropy : Bytes)
    (peer : Reader.Peer) : program fallback entropy peer = Reader.program entropy peer := by
  funext connection
  rw [program, Reader.program, readDatabase_eq]
  refine Action.bind_congr rfl fun _ _ => Action.bind_congr rfl fun database read => ?_
  obtain ⟨p, chunks⟩ := database
  obtain ⟨-, own, small⟩ := Handshake.ofSize_of_decode (Reader.announced_of_readDatabase read)
  refine Action.bind_congr (openSession_eq small own entropy chunks _) fun session opened => ?_
  refine Action.bind_congr rfl fun _ _ => ?_
  exact congrFun (withSession_eq small own entropy chunks fallback peer opened) _

end Checked

end PrivateRetrieval

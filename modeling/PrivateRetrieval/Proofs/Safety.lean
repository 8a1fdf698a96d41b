/-
No step of a session is undefined.

Nothing that a client is asked, is sent or is handed leads to a list without an entry at
the position that is looked up, to a division by zero, or to a number that does not fit
into a word.  The same holds for a server, whatever offsets or bytes it gets:

* **`Checked.bounded_setup`** — the fields of a fresh session agree and its numbers are words,
  and so they do along any run;
* **`Client.Faultless`**, **`Server.Faultless`** — the program with its partial steps made
  explicit does what the program does, and comes to no fault on the way;
* **`never_out_of_bounds`** — this is so for all parameters, streams, operations, queries
  and answers.
-/
import PrivateRetrieval.Proofs.Capacities
import PrivateRetrieval.Proofs.CheckedClient

namespace PrivateRetrieval

variable {σ K : Type}

/-- Everything that a server computes is defined, for any arguments: where the program with its
partial steps made explicit has no value, it has an error. -/
structure Server.Faultless (s : Server) : Prop where
  readDirect : ∀ index, Checked.readDirect s index = .ofExcept (s.readDirect index)
  chunk : ∀ number, Checked.chunk s number = .ofExcept (s.chunk number)
  chunkBytes : ∀ number, Checked.chunkBytes s number = .ofExcept (s.chunkBytes number)
  chunks : Checked.chunks s = .ok s.chunks
  process : ∀ {σ : Type} (offsets : List Nat) (state : σ),
    Checked.process s offsets state = (s.process offsets).toAction state
  respond : ∀ {σ : Type} (query : Bytes) (state : σ),
    Checked.respond s query state = (s.respond query).toAction state

variable [Prf K]

/-- Every operation on a client is defined, whatever it carries.  Draws may be repeated without
end, but no partial step is left without a value. -/
structure Client.Faultless [RandomSource σ] [KeySource σ K] (client : Client σ K) : Prop where
  act : ∀ operation, Checked.act operation client = operation.act client
  sure : ∀ operation cause, (Checked.act operation client).outcome = .fault cause →
    cause = .endlessDraws
  remaining : ∀ chunk,
    Checked.remainingBackups client chunk = .ok (client.remainingBackups chunk)

theorem Server.faultless {s : Server} (small : s.params.dbSize < UInt64.size) : s.Faultless where
  readDirect := Checked.readDirect_eq s
  chunk := Checked.chunk_eq small
  chunkBytes := Checked.chunkBytes_eq small
  chunks := Checked.chunks_eq small
  process := Checked.process_eq small
  respond := Checked.respond_eq small

namespace Checked

variable [RandomSource σ] [KeySource σ K] {p : Params} {source : σ} {stream : List Chunk}

theorem Bounded.faultless {client : Client σ K} (bounded : Bounded client) : client.Faultless where
  act operation := (act_agrees bounded operation).same
  sure operation cause failed := by
    obtain ⟨same, sure⟩ := act_agrees bounded operation
    rw [same] at failed
    exact sure cause failed
  remaining := remainingBackups_eq bounded

omit [RandomSource σ] in
theorem bounded_setup (valid : p.Valid) (small : p.dbSize < UInt64.size)
    (counted : p.backupCount < UInt64.size)
    (ready : (Client.setup (K := K) p source stream).outcome = .ok ()) :
    Bounded (Client.setup (K := K) p source stream).state := by
  have params := Client.setup_params ready
  refine ⟨Client.consistent_setup valid ready, ?_, params.symm ▸ small, params.symm ▸ counted⟩
  obtain ⟨tables, built, left⟩ := Client.setup_of_ok ready
  rw [left]
  exact built.grouped

omit [RandomSource σ] in
/-- A stream of any kind is taken or refused. -/
theorem setup_eq (valid : p.Valid) (small : p.dbSize < UInt64.size)
    (counted : p.backupCount < UInt64.size) (source : σ) (stream : List Chunk) :
    setup (K := K) p source stream = Client.setup p source stream
      ∧ ∀ cause, (Client.setup (K := K) p source stream).outcome ≠ .fault cause :=
  rebuild_eq rfl valid small counted stream

end Checked

/-- **No step is undefined.**  Parameters come from a size, or from a size and capacities whose
backup hints a word can count. -/
theorem never_out_of_bounds [RandomSource σ] [KeySource σ K] {size : Nat}
    (small : size < UInt64.size) {p : Params} (derived : p.Derived size)
    (counted : Params.ofSize size = .ok p ∨ p.backupCount < UInt64.size) :
    (∀ (source : σ) (stream : List Chunk),
      Checked.setup (K := K) p source stream = Client.setup p source stream
        ∧ (∀ cause, (Checked.setup (K := K) p source stream).outcome ≠ .fault cause)
        ∧ ((Checked.setup (K := K) p source stream).outcome = .ok () →
          ∀ run, ((Client.setup (K := K) p source stream).state.after run).Faultless))
      ∧ ∀ s : Server, s.words.size = size → s.Faultless := by
  have counted : p.backupCount < UInt64.size :=
    counted.elim (fun own => Params.backupCount_lt_of_ofSize own small) id
  have few : p.dbSize < UInt64.size := derived.dbSize_eq ▸ small
  refine ⟨fun source stream => ?_, fun s length => Server.faultless ?_⟩
  · obtain ⟨same, sure⟩ := Checked.setup_eq (K := K) derived.valid few counted source stream
    rw [same]
    refine ⟨rfl, sure, fun ready run => ?_⟩
    have bounded := Checked.bounded_setup derived.valid few counted ready
    exact (bounded.along (Client.path_any _ run)).faultless
  · rw [s.dbSize_eq, length]
    exact small

/-- A query is pending that uses up the first chunk.  Another client's query, a cut answer, a
stream with a short chunk and an offset past the end of a chunk are refused, and a chunk that does
not exist has no backup hints. -/
theorem never_out_of_bounds_with_foreign_queries :
    let last := Small.client.after [.select 0, .recover ⟨0, 0, 0⟩ [0, 0], .select 1]
    (Checked.act (.prepare ⟨9, 9, 9⟩) last).outcome = .error .noPendingQuery
      ∧ (Checked.act (.processResponse [2, 0, 0]) last).outcome
        = .error (.undecodable (.shortPrefix 3))
      ∧ (Checked.act (.rebuild [[1, 2], [3]]) last).outcome = .error (.chunkLength 1 2 1)
      ∧ (Checked.act (.recover ⟨1, 0, 1⟩ [0, 0]) last).outcome = .error (.backupsExhausted 0 1)
      ∧ Checked.remainingBackups last 9 = .ok 0
      ∧ (Checked.process Small.server [5] ()).outcome = .error (.offsetOutOfRange 0 5 2) := by
  intro last
  obtain ⟨sessions, servers⟩ := never_out_of_bounds (σ := Scripted Keystream) (K := LiteralKey)
    (by decide) Small.derived (.inr (by decide))
  obtain ⟨same, -, safe⟩ := sessions Small.source Small.server.chunks
  have faultless : last.Faultless :=
    safe ((congrArg Step.outcome same).trans Small.setup_ok) _
  refine ⟨?_, ?_, ?_, ?_, faultless.remaining 9, ?_⟩
  · rw [faultless.act]
    decide
  · rw [faultless.act]
    decide
  · rw [faultless.act]
    decide
  · rw [faultless.act]
    decide
  · rw [(servers Small.server rfl).process]
    decide

end PrivateRetrieval

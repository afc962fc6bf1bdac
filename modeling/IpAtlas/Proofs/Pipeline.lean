import IpAtlas.Ingest

/-!
# The pipeline

A source is ingested in batches by several parties at once.  One party reads the batches and numbers
them, the workers parse them, and one party inserts what comes out, in the order of the numbers.
Between them lie two queues, which have room for so many batches.  Permits go round as well: the
reader takes one before each batch, and the consumer hands it back when the batch is inserted, so
reading runs only so far ahead.

The parties share nothing else but the wish for an interruption, which may also come from outside,
at any time.  A step here is what one party does without waiting and what no other party can see
half done: it puts a message into a queue or takes one out, reads or parses a batch, or inserts a
result.  A schedule is any sequence of such steps, with interruptions anywhere in it.

Parties notice when others leave, because whoever ends lets go of the queues.  Whoever wants a
message is told if there is none and nobody is left to send one, and whoever wants to send one is
told if nobody is left to take it.  What is in a queue then stays in it.

## What is here

* `Plan` — what a pipeline is set up with.
* `Reader`, `Worker`, `Stage` — where the parties stand.
* `State`, `State.start` — a pipeline, and how it begins.
* `ReaderStep`, `WorkerStep`, `ConsumerStep`, `Step`, `Reachable` — what the parties do.
* `State.places`, `State.Over`, `State.outcome` — where batches are, and how it ends.
-/

set_option autoImplicit false

namespace IpAtlas

/-- A run that is wanted to be interrupted. -/
def Run.disturb {σ α : Type} (run : Run σ α) : Run σ α := { run with interrupted := true }

/-- What a run comes to whose batches are all inserted, when the reader reports how the source
ended; a failure of the source is remarked on. -/
def Run.conclude {σ α : Type} (run : Run σ α) (label : Path) (fault : Option IoError) : Run σ α :=
  match run.failure, fault with
  | none, some e =>
    { run with
      remarks := run.remarks ++ [⟨.error, s!"{label}: read failed: {e.message}"⟩]
      failure := some (.io e) }
  | _, _ => run

namespace Pipeline

/-! ## Parties -/

/-- What a pipeline is set up with. -/
structure Plan where
  reader : LineReader
  settings : Settings
  /-- The name that the source goes by in remarks. -/
  label : Path
  /-- What there is to read. -/
  batches : List Batch
  /-- How the source ends after that. -/
  fault : Option IoError := none

namespace Plan

variable (plan : Plan)

/-- How many workers there are. -/
def crew : Nat := plan.settings.workerCount

/-- How many messages either queue has room for. -/
def room : Nat := plan.crew * 2

/-- How many permits there are. -/
def limit : Nat := inFlightLimit plan.crew

/-- What a worker makes of a batch. -/
def parse (batch : Batch) : List LineResult :=
  batch.lines.map (plan.reader plan.settings.keepSource)

/-- A run that is about to ingest what the pipeline reads. -/
def opened {σ α : Type} (run : Run σ α) : Run σ α :=
  { run with remarks := run.remarks ++ [run.opening plan.label plan.settings] }

end Plan

/-- Where the reader stands. -/
inductive Reader where
  /-- It wants a permit. -/
  | waiting
  /-- It has a permit and is to read. -/
  | permitted
  /-- It has read a batch and is to look for an interruption. -/
  | holding (batch : Batch)
  /-- It wants to send the batch. -/
  | sending (batch : Batch)
  /-- It is gone and has reported a failure of the source, if there was one. -/
  | ended (fault : Option IoError)

namespace Reader

/-- Whether a reader is gone. -/
def isEnded : Reader → Bool
  | ended _ => true
  | _ => false

/-- The batch in the hand of a reader, by the number that it is to get. -/
def hand (number : Nat) : Reader → List Nat
  | holding _ | sending _ => [number]
  | _ => []

/-- How many permits are in the hand of a reader. -/
def permits : Reader → Nat
  | permitted => 1
  | _ => 0

end Reader

/-- Where a worker stands. -/
inductive Worker where
  /-- It wants a batch. -/
  | idle
  | parsing (number : Nat) (batch : Batch)
  /-- It wants to send the results of a batch. -/
  | sending (number : Nat) (results : List LineResult)
  | ended

/-- The batch that a worker has, by its number. -/
def Worker.hand : Worker → List Nat
  | parsing number _ | sending number _ => [number]
  | _ => []

/-- Where the consumer stands.  It launches the workers before it consumes anything. -/
inductive Stage where
  /-- It launches the workers, and could itself take batches and send results. -/
  | launching
  /-- It takes no batches any more, and is to part with its right to send results. -/
  | parting
  /-- It wants results. -/
  | receiving
  /-- It looks whether a batch that waits is next. -/
  | releasing
  /-- It inserts the results of a batch, of which some are left. -/
  | inserting (number : Nat) (rest : List LineResult)
  /-- It has inserted a batch and is to hand back the permit. -/
  | returning
  /-- There are no more results, and it looks for an interruption once more. -/
  | closing
  /-- It is done with inserting, for better or worse, and is to part with the permits. -/
  | leaving
  /-- It is to part with the queue of results. -/
  | departing
  /-- It waits for the others to end. -/
  | joining
  | ended

namespace Stage

/-- Whether the consumer could take batches. -/
def takesBatches : Stage → Bool
  | launching => true
  | _ => false

/-- Whether the consumer could send results. -/
def sendsResults : Stage → Bool
  | launching | parting => true
  | _ => false

/-- Whether the consumer could hand back a permit. -/
def sendsPermits : Stage → Bool
  | departing | joining | ended => false
  | _ => true

/-- Whether the consumer could take results. -/
def takesResults : Stage → Bool
  | joining | ended => false
  | _ => true

/-- Whether the consumer is not done with inserting. -/
def isAtWork : Stage → Bool
  | leaving | departing | joining | ended => false
  | _ => true

/-- Whether there are no more results for the consumer to take. -/
def isOver : Stage → Bool
  | closing | leaving | departing | joining | ended => true
  | _ => false

/-- Whether the consumer has looked for the next batch since the last one arrived. -/
def isSettled : Stage → Bool
  | launching | parting | receiving | closing => true
  | _ => false

/-- The batch that is being inserted, by its number. -/
def hand : Stage → List Nat
  | inserting number _ => [number]
  | _ => []

/-- What is left of the batch that is being inserted. -/
def rest : Stage → List LineResult
  | inserting _ rest => rest
  | _ => []

/-- How many permits the consumer is to hand back. -/
def permits : Stage → Nat
  | returning => 1
  | _ => 0

end Stage

/-! ## States -/

/-- A pipeline. -/
structure State (σ α : Type) where
  reader : Reader := .waiting
  /-- How many batches have been read. -/
  read : Nat := 0
  /-- The number that the next batch gets. -/
  sequence : Nat := 0
  /-- The workers that have been launched. -/
  workers : List Worker := []
  stage : Stage := .launching
  consumer : Consumer σ α
  /-- Batches for the workers. -/
  batches : List (Nat × Batch) := []
  /-- Results for the consumer. -/
  results : List (Nat × List LineResult) := []
  /-- How many permits the reader can take. -/
  permits : Nat
  /-- The numbers of the batches that are fully inserted, in the order in which they were. -/
  inserted : List Nat := []
  /-- Whether an interruption came from outside. -/
  disturbed : Bool := false

namespace State

variable {σ α : Type}

/-- The beginning of a pipeline: the reader is on its way and all permits are there. -/
def start (plan : Plan) (run : Run σ α) : State σ α where
  consumer := { run := plan.opened run }
  permits := plan.limit

/-- The run that batches are inserted into. -/
def run (s : State σ α) : Run σ α := s.consumer.run

/-- A pipeline that somebody outside wants to be interrupted. -/
def interrupt (s : State σ α) : State σ α :=
  { s with consumer := { s.consumer with run := s.consumer.run.disturb }, disturbed := true }

/-- Whether no worker is at work any more. -/
def Idle (s : State σ α) : Prop := ∀ w ∈ s.workers, w = .ended

/-- Whether nobody is left to take batches. -/
def Untaken (s : State σ α) : Prop := s.stage.takesBatches = false ∧ s.Idle

/-- Whether nobody is left to send results. -/
def Unsent (s : State σ α) : Prop := s.stage.sendsResults = false ∧ s.Idle

/-- The batches on their way to the consumer, by their numbers: in the reader's hand, in the queue
of batches, with a worker, in the queue of results, and waiting for their turn. -/
def places (s : State σ α) : List Nat :=
  s.reader.hand s.sequence ++ s.batches.map Prod.fst ++ s.workers.flatMap Worker.hand ++
    s.results.map Prod.fst ++ s.consumer.waiting.map Prod.fst

/-- Every party has ended. -/
structure Over (s : State σ α) : Prop where
  reader : s.reader.isEnded
  workers : s.Idle
  consumer : s.stage = .ended

/-- What the run has come to, with the report of the reader. -/
def outcome (s : State σ α) (plan : Plan) : Run σ α :=
  match s.reader with
  | .ended fault => s.run.conclude plan.label fault
  | _ => s.run

end State

/-! ## Steps -/

section

variable {σ α : Type}

/-- What the reader does. -/
inductive ReaderStep (plan : Plan) : State σ α → State σ α → Prop
  | takePermit {s : State σ α} (stands : s.reader = .waiting) (some_left : 0 < s.permits) :
      ReaderStep plan s { s with reader := .permitted, permits := s.permits - 1 }
  /-- No permit is left, and the consumer hands none back. -/
  | runOut {s : State σ α} (stands : s.reader = .waiting) (none_left : s.permits = 0)
      (unsent : s.stage.sendsPermits = false) :
      ReaderStep plan s { s with reader := .ended none }
  | read {s : State σ α} {batch : Batch} (stands : s.reader = .permitted)
      (is_next : plan.batches[s.read]? = some batch) :
      ReaderStep plan s { s with reader := .holding batch, read := s.read + 1 }
  | reachEnd {s : State σ α} (stands : s.reader = .permitted)
      (is_end : plan.batches[s.read]? = none) :
      ReaderStep plan s { s with reader := .ended plan.fault }
  /-- An interruption is wanted, so the batch is dropped. -/
  | giveUp {s : State σ α} {batch : Batch} (stands : s.reader = .holding batch)
      (interrupted : s.run.interrupted = true) :
      ReaderStep plan s { s with reader := .ended none }
  | goOn {s : State σ α} {batch : Batch} (stands : s.reader = .holding batch)
      (uninterrupted : s.run.interrupted = false) :
      ReaderStep plan s { s with reader := .sending batch }
  | send {s : State σ α} {batch : Batch} (stands : s.reader = .sending batch)
      (taken : ¬s.Untaken) (has_room : s.batches.length < plan.room) :
      ReaderStep plan s
        { s with
          reader := .waiting
          sequence := s.sequence + 1
          batches := s.batches ++ [(s.sequence, batch)] }
  /-- Nobody takes the batch, so it is dropped. -/
  | drop {s : State σ α} {batch : Batch} (stands : s.reader = .sending batch)
      (untaken : s.Untaken) :
      ReaderStep plan s { s with reader := .ended none }

/-- What the worker at a place does. -/
inductive WorkerStep (plan : Plan) (i : Nat) : State σ α → State σ α → Prop
  | take {s : State σ α} {number : Nat} {batch : Batch} {batches : List (Nat × Batch)}
      (stands : s.workers[i]? = some .idle) (is_first : s.batches = (number, batch) :: batches) :
      WorkerStep plan i s
        { s with workers := s.workers.set i (.parsing number batch), batches }
  /-- There is no batch, and the reader sends none. -/
  | runOut {s : State σ α} (stands : s.workers[i]? = some .idle) (none_left : s.batches = [])
      (unsent : s.reader.isEnded = true) :
      WorkerStep plan i s { s with workers := s.workers.set i .ended }
  | parse {s : State σ α} {number : Nat} {batch : Batch}
      (stands : s.workers[i]? = some (.parsing number batch)) :
      WorkerStep plan i s
        { s with workers := s.workers.set i (.sending number (plan.parse batch)) }
  | send {s : State σ α} {number : Nat} {results : List LineResult}
      (stands : s.workers[i]? = some (.sending number results))
      (taken : s.stage.takesResults = true) (has_room : s.results.length < plan.room) :
      WorkerStep plan i s
        { s with
          workers := s.workers.set i .idle
          results := s.results ++ [(number, results)] }
  /-- Nobody takes the results, so they are dropped. -/
  | drop {s : State σ α} {number : Nat} {results : List LineResult}
      (stands : s.workers[i]? = some (.sending number results))
      (untaken : s.stage.takesResults = false) :
      WorkerStep plan i s { s with workers := s.workers.set i .ended }

/-- What the consumer does. -/
inductive ConsumerStep (plan : Plan) : State σ α → State σ α → Prop
  | launch {s : State σ α} (stands : s.stage = .launching)
      (is_short : s.workers.length < plan.crew) :
      ConsumerStep plan s { s with workers := s.workers ++ [.idle] }
  | leaveBatches {s : State σ α} (stands : s.stage = .launching)
      (is_full : plan.crew ≤ s.workers.length) :
      ConsumerStep plan s { s with stage := .parting }
  | leaveResults {s : State σ α} (stands : s.stage = .parting) :
      ConsumerStep plan s { s with stage := .receiving }
  | receive {s : State σ α} {arrival : Nat × List LineResult}
      {results : List (Nat × List LineResult)} (stands : s.stage = .receiving)
      (is_first : s.results = arrival :: results) :
      ConsumerStep plan s
        { s with
          stage := .releasing
          consumer := { s.consumer with waiting := arrival :: s.consumer.waiting }
          results }
  /-- There are no results, and nobody sends any. -/
  | runOut {s : State σ α} (stands : s.stage = .receiving) (none_left : s.results = [])
      (unsent : s.Unsent) :
      ConsumerStep plan s { s with stage := .closing }
  | release {s : State σ α} {number : Nat} {results : List LineResult}
      (stands : s.stage = .releasing)
      (is_next : s.consumer.waiting.find? (·.1 = s.consumer.next) = some (number, results)) :
      ConsumerStep plan s
        { s with
          stage := .inserting number results
          consumer :=
            { s.consumer with
              next := s.consumer.next + 1
              waiting := s.consumer.waiting.eraseP (·.1 = s.consumer.next) } }
  | settle {s : State σ α} (stands : s.stage = .releasing)
      (none_next : s.consumer.waiting.find? (·.1 = s.consumer.next) = none) :
      ConsumerStep plan s { s with stage := .receiving }
  | insert {s : State σ α} {number : Nat} {result : LineResult} {rest : List LineResult}
      (stands : s.stage = .inserting number (result :: rest))
      (succeeds : (s.run.step result).failure = none) :
      ConsumerStep plan s
        { s with
          stage := .inserting number rest
          consumer := { s.consumer with run := s.run.step result } }
  /-- The result cannot be inserted, and that is the end. -/
  | fail {s : State σ α} {number : Nat} {result : LineResult} {rest : List LineResult}
      (stands : s.stage = .inserting number (result :: rest))
      (fails : (s.run.step result).failure.isSome) :
      ConsumerStep plan s
        { s with
          stage := .leaving
          consumer := { s.consumer with run := s.run.step result } }
  | complete {s : State σ α} {number : Nat} (stands : s.stage = .inserting number []) :
      ConsumerStep plan s { s with stage := .returning, inserted := s.inserted ++ [number] }
  | handBack {s : State σ α} (stands : s.stage = .returning)
      (wanted : s.reader.isEnded = false) (has_room : s.permits < plan.limit) :
      ConsumerStep plan s { s with stage := .releasing, permits := s.permits + 1 }
  /-- The reader is gone, so nobody wants the permit. -/
  | keep {s : State σ α} (stands : s.stage = .returning) (unwanted : s.reader.isEnded = true) :
      ConsumerStep plan s { s with stage := .releasing }
  | close {s : State σ α} (stands : s.stage = .closing) :
      ConsumerStep plan s
        { s with
          stage := .leaving
          consumer := { s.consumer with run := s.run.heed } }
  | dropPermits {s : State σ α} (stands : s.stage = .leaving) :
      ConsumerStep plan s { s with stage := .departing }
  | dropResults {s : State σ α} (stands : s.stage = .departing) :
      ConsumerStep plan s { s with stage := .joining }
  | join {s : State σ α} (stands : s.stage = .joining) (reader_ended : s.reader.isEnded = true)
      (workers_ended : s.Idle) :
      ConsumerStep plan s { s with stage := .ended }

/-- What some party does. -/
inductive Step (plan : Plan) (s s' : State σ α) : Prop
  | reader (step : ReaderStep plan s s')
  | worker (i : Nat) (step : WorkerStep plan i s s')
  | consumer (step : ConsumerStep plan s s')

/-- What a pipeline may come to, under any schedule. -/
inductive Reachable (plan : Plan) (run : Run σ α) : State σ α → Prop
  | start : Reachable plan run (.start plan run)
  | step {s s' : State σ α} (reached : Reachable plan run s) (step : Step plan s s') :
      Reachable plan run s'
  | interrupt {s : State σ α} (reached : Reachable plan run s) : Reachable plan run s.interrupt

end

end Pipeline

end IpAtlas

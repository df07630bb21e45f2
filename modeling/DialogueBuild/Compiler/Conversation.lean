import DialogueBuild.Compiler.Run
/-!
A compiler and its caller while both are at work.

The job goes to the compiler through one pipe; its answer and its complaint come back through two
others. A writer of its own hands over the job while the caller gathers what comes back, so that no
one waits for a pipe that the other will not empty. The compiler may read, stop reading, write and
exit in any order.
-/
namespace DialogueBuild

/-- The bytes that a compiler is sent. -/
@[irreducible] def Job.bytes (job : Job) : List UInt8 := job.text.toUTF8.data.toList

/-! ## Pipes -/

/-- A pipe: the bytes in it, and those that were taken out of it. -/
structure Channel where
  waiting : List UInt8
  taken : List UInt8
  deriving DecidableEq, Repr

namespace Channel

def empty : Channel := ⟨[], []⟩

/-- The bytes that were put in, unless some were lost. -/
def carried (ch : Channel) : List UInt8 := ch.taken ++ ch.waiting

def put (ch : Channel) (bytes : List UInt8) : Channel := ⟨ch.waiting ++ bytes, ch.taken⟩

def take (ch : Channel) (n : Nat) : Channel := ⟨ch.waiting.drop n, ch.taken ++ ch.waiting.take n⟩

/-- Nobody will take what is still in the pipe. -/
def cut (ch : Channel) : Channel := ⟨[], ch.taken⟩

/-- The pipe has room for so many bytes. -/
def HasRoom (capacity n : Nat) (ch : Channel) : Prop := ch.waiting.length + n ≤ capacity

end Channel

/-! ## Steps -/

structure Conversation where
  /-- The bytes of the job that the writer still has. -/
  unsent : List UInt8
  /-- How sending the job ended. -/
  sent : Option (Except FileSystem.Fault Unit)
  /-- The compiler has its end of the job's pipe open. -/
  listening : Bool
  job : Channel
  answer : Channel
  complaint : Channel
  /-- How the compiler ended. -/
  status : Option ExitStatus

namespace Conversation

/-- A compiler that was just started. -/
def start (job : Job) : Conversation := ⟨job.bytes, none, true, .empty, .empty, .empty, none⟩

/-- What the writer, the compiler or the caller can do next. -/
inductive Step (capacity : Nat) : Conversation → Conversation → Prop
  /-- The writer puts the next bytes of the job into its pipe. -/
  | handOver {c : Conversation} (n : Nat) (hsent : c.sent = none) (hopen : c.listening = true)
    (hsome : 0 < n) (hleft : n ≤ c.unsent.length) (hroom : c.job.HasRoom capacity n) :
    Step capacity c { c with unsent := c.unsent.drop n, job := c.job.put (c.unsent.take n) }
  /-- The writer has handed over the whole job. -/
  | finish {c : Conversation} (hsent : c.sent = none) (hleft : c.unsent = []) :
    Step capacity c { c with sent := some (.ok ()) }
  /-- The writer finds that nobody will read the rest of the job. -/
  | giveUp {c : Conversation} (hsent : c.sent = none) (hclosed : c.listening = false)
    (hleft : c.unsent ≠ []) : Step capacity c { c with sent := some (.error .brokenPipe) }
  | read {c : Conversation} (n : Nat) (hruns : c.status = none) (hopen : c.listening = true)
    (hsome : 0 < n) (hwaiting : n ≤ c.job.waiting.length) :
    Step capacity c { c with job := c.job.take n }
  /-- The compiler stops reading. -/
  | close {c : Conversation} (hruns : c.status = none) :
    Step capacity c { c with listening := false, job := c.job.cut }
  | answer {c : Conversation} (bytes : List UInt8) (hruns : c.status = none)
    (hroom : c.answer.HasRoom capacity bytes.length) :
    Step capacity c { c with answer := c.answer.put bytes }
  | complain {c : Conversation} (bytes : List UInt8) (hruns : c.status = none)
    (hroom : c.complaint.HasRoom capacity bytes.length) :
    Step capacity c { c with complaint := c.complaint.put bytes }
  | exit {c : Conversation} (status : ExitStatus) (hruns : c.status = none) :
    Step capacity c { c with status := some status, listening := false, job := c.job.cut }
  /-- The caller gathers a part of the answer. -/
  | gatherAnswer {c : Conversation} (n : Nat) (hsome : 0 < n)
    (hwaiting : n ≤ c.answer.waiting.length) : Step capacity c { c with answer := c.answer.take n }
  | gatherComplaint {c : Conversation} (n : Nat) (hsome : 0 < n)
    (hwaiting : n ≤ c.complaint.waiting.length) :
    Step capacity c { c with complaint := c.complaint.take n }

end Conversation

/-! ## The end -/

/-- How the bytes of a compiler are understood. What is no UTF-8 is left to the library that reads
results; every other text is read as such. -/
structure Understanding where
  result : List UInt8 → Except Json.Problem Compilation
  text : List UInt8 → String
  result_utf8 : ∀ s : String, result s.toUTF8.data.toList = Compilation.ofText s
  text_utf8 : ∀ s : String, text s.toUTF8.data.toList = s

/-- Bytes that are no UTF-8 are no result. -/
def Understanding.strict : Understanding where
  result bytes :=
    match String.fromUTF8? ⟨bytes.toArray⟩ with
    | some s => Compilation.ofText s
    | none => .error (.fault .malformed)
  text bytes := (String.fromUTF8? ⟨bytes.toArray⟩).getD ""
  result_utf8 s := by
    have hback : String.fromUTF8? ⟨s.toUTF8.data.toList.toArray⟩ = some s := dif_pos s.isValidUTF8
    rw [hback]
  text_utf8 s := by
    have hback : String.fromUTF8? ⟨s.toUTF8.data.toList.toArray⟩ = some s := dif_pos s.isValidUTF8
    rw [hback, Option.getD_some]

namespace Conversation

/-- What the caller makes of a conversation. It has to wait until the compiler has exited, the
writer has ended, and everything that comes back is gathered. -/
def exchange? (u : Understanding) (c : Conversation) : Option Exchange :=
  match c.status, c.sent with
  | some status, some sent =>
    if c.answer.waiting = [] ∧ c.complaint.waiting = [] then
      some ⟨u.result c.answer.taken, u.text c.complaint.taken, status, sent,
        if c.job.taken = [] then none else some (u.text c.job.taken)⟩
    else none
  | _, _ => none

end Conversation

end DialogueBuild

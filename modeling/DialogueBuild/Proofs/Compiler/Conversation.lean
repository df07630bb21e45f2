import DialogueBuild.Compiler.Conversation
import DialogueBuild.Proofs.WireFormat
import Mathlib.Logic.Relation
/-!
What comes of a compiler, in whatever order it and its caller act.

When a compiler exits, all that its caller will make of it is settled: its answer and its complaint
are what it wrote, and the job was sent unless a part of it was not handed over. Only what is left
to be gathered remains to be done. An answer that is a result counts, except for one case in which
timing decides: a compiler that failed and stopped reading before it had its whole job forfeits its
answer.

Results:

1. `Step.sound`, `sound_of_runs`     what holds in every conversation;
2. `Step.settled`, `settled_of_runs` after the exit nothing changes that the caller will see, and
                                     every step brings the end closer;
3. `answer_decides`                  the answer decides the outcome, unless it is forfeited;
4. `timing_decides_forfeits`         a forfeited answer is one that would have counted if the
                                     compiler had gone on reading;
5. `exchange_of_conversation`        the exchanges of scripted compilers come of conversations.
-/
namespace DialogueBuild

/-! ## Outcomes -/

namespace Exchange

/-- A result was answered, but the compiler failed and did not take its whole job. -/
def Forfeits (e : Exchange) : Prop :=
  (∃ result, e.answer = .ok result) ∧ e.sent ≠ .ok () ∧ e.status.isSuccess = false

/-- The failure of a compiler, in its own words and in those of the writer. -/
def failure (e : Exchange) : Failure := .compiler e.status (complaintText e.complaint e.sent)

variable {e : Exchange} {result : Compilation}

theorem outcome_of_answer (h : e.answer = .ok result) (hkept : ¬ e.Forfeits) :
    e.outcome = .ok result := by
  cases hsent : e.sent with
  | ok => simp [outcome, h, hsent]
  | error fault =>
    have hsuccess : e.status.isSuccess = true := by
      by_contra hfail
      exact hkept ⟨⟨result, h⟩, by simp [hsent], by simpa using hfail⟩
    simp [outcome, h, hsent, hsuccess]

theorem outcome_of_forfeits (h : e.Forfeits) : e.outcome = .error e.failure := by
  obtain ⟨⟨result, hanswer⟩, hsent, hfail⟩ := h
  cases he : e.sent with
  | ok => exact absurd he hsent
  | error fault => simp [outcome, failure, hanswer, he, hfail]

theorem outcome_ne_ok (h : ∀ result, e.answer ≠ .ok result) : e.outcome.toOption = none := by
  cases hanswer : e.answer with
  | ok result => exact absurd hanswer (h result)
  | error problem =>
    unfold outcome
    rw [hanswer]
    cases e.sent with
    | error fault => rfl
    | ok => dsimp only; split <;> rfl

/-- A compiler is said to have failed only if it did, or the job could not be sent. -/
theorem of_outcome_eq_compiler {status : ExitStatus} {text : String}
    (h : e.outcome = .error (.compiler status text)) :
    status = e.status ∧ (e.Forfeits ∨ ∀ result, e.answer ≠ .ok result) := by
  cases hanswer : e.answer with
  | ok result =>
    by_cases hforfeits : e.Forfeits
    · rw [outcome_of_forfeits hforfeits, failure, Except.error.injEq, Failure.compiler.injEq] at h
      exact ⟨h.1.symm, .inl hforfeits⟩
    · rw [outcome_of_answer hanswer hforfeits] at h
      cases h
  | error problem =>
    refine ⟨?_, .inr (by simp)⟩
    unfold outcome at h
    rw [hanswer] at h
    cases hsent : e.sent with
    | error fault =>
      simp only [hsent, Except.error.injEq, Failure.compiler.injEq] at h
      exact h.1.symm
    | ok =>
      simp only [hsent] at h
      split at h
      · simp at h
      · simp only [Except.error.injEq, Failure.compiler.injEq] at h
        exact h.1.symm

/-- What was answered and how the compiler ended say what it comes to, unless a result was answered
by a compiler that failed. -/
theorem toOption_outcome {f : Exchange} (hanswer : e.answer = f.answer)
    (hstatus : e.status = f.status)
    (h : e.status.isSuccess = true ∨ ∀ result, e.answer ≠ .ok result) :
    e.outcome.toOption = f.outcome.toOption := by
  cases hresult : e.answer with
  | error problem =>
    have hnone : ∀ result, e.answer ≠ .ok result := by simp [hresult]
    rw [outcome_ne_ok hnone, outcome_ne_ok (hanswer ▸ hnone)]
  | ok result =>
    have hsuccess : e.status.isSuccess = true := h.resolve_right fun hn => hn result hresult
    have he : ¬ e.Forfeits := fun hf => by simp [hf.2.2] at hsuccess
    have hf : ¬ f.Forfeits := fun hf => by simp [hstatus, hf.2.2] at hsuccess
    rw [outcome_of_answer hresult he, outcome_of_answer (hanswer ▸ hresult) hf]

end Exchange

/-! ## Pipes -/

namespace Channel

variable (ch : Channel)

@[simp] theorem carried_take (n : Nat) : (ch.take n).carried = ch.carried := by
  simp [take, carried]

@[simp] theorem carried_put (bytes : List UInt8) :
    (ch.put bytes).carried = ch.carried ++ bytes := by
  simp [put, carried]

theorem taken_prefix_carried : ch.taken <+: ch.carried := List.prefix_append ch.taken ch.waiting

theorem carried_of_waiting_nil {ch : Channel} (h : ch.waiting = []) : ch.carried = ch.taken := by
  rw [carried, h, List.append_nil]

end Channel

/-! ## Texts as bytes -/

theorem length_utf8 (s : String) : s.toUTF8.data.toList.length = s.utf8ByteSize := by
  rw [Array.length_toList]
  rfl

theorem Job.bytes_ne_nil (job : Job) : job.bytes ≠ [] := by
  intro hnil
  have hsize : job.text.utf8ByteSize = 0 := by
    rw [← length_utf8, ← Job.bytes, hnil, List.length_nil]
  have htext : job.text.toList = [] := by
    rw [String.utf8ByteSize_eq_zero_iff.mp hsize, String.toList_empty]
  simp [Job.text, Json.Value.text, Job.toJson, Json.Value.compact, Json.compactMembers] at htext

theorem Compilation.ofText_braces : Compilation.ofText "\x7b\x7d" = .ok ⟨none, .empty, []⟩ := by
  have hmembers : Json.RendersMembers (details.map Json.Detail.name)
      (⟨none, .empty, []⟩ : Compilation) details [] :=
    .done (by simp [details, Json.Detail.optional])
  have hspelled := (Json.Spells.noMembers Json.isBlank_nil).padded
  exact ofText_rendered ⟨_, .inl ⟨_, rfl, hmembers⟩, hspelled⟩

namespace Conversation

/-- Any number of steps. -/
abbrev Runs (capacity : Nat) : Conversation → Conversation → Prop :=
  Relation.ReflTransGen (Step capacity)

variable {capacity : Nat} {job : Job} {c d : Conversation} {status : ExitStatus}

/-! ## What holds in every conversation -/

/-- The compiler reads a beginning of the job, and the writer gives up only when nobody will read
what it has left. -/
structure Sound (job : Job) (c : Conversation) : Prop where
  books : c.listening = true → c.job.carried ++ c.unsent = job.bytes
  heard : c.job.taken <+: job.bytes
  finished : c.sent = some (.ok ()) → c.unsent = []
  gaveUp : ∀ fault, c.sent = some (.error fault) →
    fault = .brokenPipe ∧ c.unsent ≠ [] ∧ c.listening = false
  exited : c.status ≠ none → c.listening = false

theorem sound_start (job : Job) : (start job).Sound job where
  books _ := rfl
  heard := List.nil_prefix
  finished h := by simp [start] at h
  gaveUp _ h := by simp [start] at h
  exited h := by simp [start] at h

theorem Step.sound (h : Step capacity c d) (hc : c.Sound job) : d.Sound job := by
  obtain ⟨hbooks, hheard, hfinished, hgaveUp, hexited⟩ := hc
  cases h with
  | handOver n hsent hopen =>
    refine ⟨fun _ => ?_, hheard, by simp [hsent], by simp [hsent], hexited⟩
    rw [Channel.carried_put, List.append_assoc, List.take_append_drop]
    exact hbooks hopen
  | finish hsent hleft => exact ⟨hbooks, hheard, fun _ => hleft, by simp, hexited⟩
  | giveUp hsent hclosed hleft =>
    refine ⟨hbooks, hheard, by simp, ?_, hexited⟩
    rintro fault ⟨⟩
    exact ⟨rfl, hleft, hclosed⟩
  | read n hruns hopen =>
    refine ⟨fun _ => ?_, ?_, hfinished, hgaveUp, hexited⟩
    · rw [Channel.carried_take]
      exact hbooks hopen
    · have hcarried := (c.job.take n).taken_prefix_carried
      rw [Channel.carried_take] at hcarried
      exact hcarried.trans ⟨c.unsent, hbooks hopen⟩
  | close | exit =>
    exact ⟨by simp, hheard, hfinished, fun f hf => ⟨(hgaveUp f hf).1, (hgaveUp f hf).2.1, rfl⟩,
      fun _ => rfl⟩
  | answer | complain | gatherAnswer | gatherComplaint =>
    exact ⟨hbooks, hheard, hfinished, hgaveUp, hexited⟩

theorem sound_of_runs (h : Runs capacity (start job) c) : c.Sound job := by
  induction h with
  | refl => exact sound_start job
  | tail _ hstep ih => exact hstep.sound ih

/-! ## After the exit -/

/-- What remains to be done once the compiler has exited. -/
def pending (c : Conversation) : Nat :=
  (if c.sent.isNone then 1 else 0) + c.answer.waiting.length + c.complaint.waiting.length

/-- What the caller is going to make of a conversation. -/
def conclusion (u : Understanding) (status : ExitStatus) (c : Conversation) : Exchange :=
  ⟨u.result c.answer.carried, u.text c.complaint.carried, status,
    if c.unsent = [] then .ok () else .error .brokenPipe,
    if c.job.taken = [] then none else some (u.text c.job.taken)⟩

theorem Step.settled (h : Step capacity c d) (hc : c.Sound job) (hexit : c.status = some status) :
    d.status = some status ∧ d.pending < c.pending
      ∧ ∀ u, d.conclusion u status = c.conclusion u status := by
  have hclosed : c.listening = false := hc.exited (by simp [hexit])
  cases h with
  | handOver n hsent hopen => simp [hclosed] at hopen
  | finish hsent | giveUp hsent =>
    refine ⟨hexit, ?_, fun _ => rfl⟩
    simp [pending, hsent]
  | gatherAnswer n hsome hwaiting | gatherComplaint n hsome hwaiting =>
    refine ⟨hexit, ?_, by simp [conclusion]⟩
    simp only [pending, Channel.take, List.length_drop]
    omega
  | read _ hruns | close hruns | answer _ hruns | complain _ hruns | exit _ hruns =>
    simp [hexit] at hruns

theorem settled_of_runs (h : Runs capacity c d) (hc : c.Sound job)
    (hexit : c.status = some status) :
    d.Sound job ∧ d.status = some status ∧ ∀ u, d.conclusion u status = c.conclusion u status := by
  induction h with
  | refl => exact ⟨hc, hexit, fun _ => rfl⟩
  | tail _ hstep ih =>
    obtain ⟨hsound, hstatus, hsame⟩ := ih
    obtain ⟨hstatus', -, hsame'⟩ := hstep.settled hsound hstatus
    exact ⟨hstep.sound hsound, hstatus', fun u => (hsame' u).trans (hsame u)⟩

/-- As long as something remains to be done, somebody can do it. -/
theorem exists_step_of_pending (hc : c.Sound job) (hexit : c.status = some status)
    (h : c.pending ≠ 0) : ∃ d, Step capacity c d := by
  have hclosed : c.listening = false := hc.exited (by simp [hexit])
  cases hsent : c.sent with
  | none =>
    by_cases hleft : c.unsent = []
    · exact ⟨_, .finish hsent hleft⟩
    · exact ⟨_, .giveUp hsent hclosed hleft⟩
  | some =>
    by_cases hanswer : c.answer.waiting = []
    · have hcomplaint : c.complaint.waiting ≠ [] := by simpa [pending, hsent, hanswer] using h
      exact ⟨_, .gatherComplaint 1 (by decide) (List.length_pos_iff.mpr hcomplaint)⟩
    · exact ⟨_, .gatherAnswer 1 (by decide) (List.length_pos_iff.mpr hanswer)⟩

/-- The caller has what it waits for as soon as nothing remains to be done. -/
theorem exchange?_eq (u : Understanding) (hc : c.Sound job) (hexit : c.status = some status) :
    c.exchange? u = if c.pending = 0 then some (c.conclusion u status) else none := by
  cases hsent : c.sent with
  | none => simp [exchange?, pending, hexit, hsent]
  | some sent =>
    have hpending : c.pending = 0 ↔ c.answer.waiting = [] ∧ c.complaint.waiting = [] := by
      simp [pending, hsent]
    have hlast : sent = if c.unsent = [] then .ok () else .error .brokenPipe := by
      cases sent with
      | ok => rw [if_pos (hc.finished hsent)]
      | error fault =>
        obtain ⟨rfl, hleft, -⟩ := hc.gaveUp fault hsent
        rw [if_neg hleft]
    simp only [exchange?, hexit, hsent, hpending]
    by_cases hgathered : c.answer.waiting = [] ∧ c.complaint.waiting = []
    · rw [if_pos hgathered, if_pos hgathered, conclusion, hlast,
        Channel.carried_of_waiting_nil hgathered.1, Channel.carried_of_waiting_nil hgathered.2]
    · rw [if_neg hgathered, if_neg hgathered]

theorem eq_conclusion_of_exchange? {u : Understanding} {e : Exchange} (hc : c.Sound job)
    (hexit : c.status = some status) (h : e ∈ c.exchange? u) :
    c.pending = 0 ∧ e = c.conclusion u status := by
  rw [exchange?_eq u hc hexit] at h
  by_cases hpending : c.pending = 0
  · rw [if_pos hpending] at h
    exact ⟨hpending, (Option.some.inj h).symm⟩
  · simp [hpending] at h

/-- No schedule goes on for ever after the exit. -/
theorem exists_no_step (hc : c.Sound job) (hexit : c.status = some status)
    {f : Nat → Conversation} (hf : f 0 = c) : ∃ i, ¬ Step capacity (f i) (f (i + 1)) := by
  subst hf
  by_contra! hsteps
  have hbound (i : Nat) : (f i).Sound job ∧ (f i).status = some status
      ∧ (f i).pending + i ≤ (f 0).pending := by
    induction i with
    | zero => exact ⟨hc, hexit, le_rfl⟩
    | succ i ih =>
      obtain ⟨hsound, hstatus, hpending⟩ := ih
      obtain ⟨hstatus', hless, -⟩ := (hsteps i).settled hsound hstatus
      exact ⟨(hsteps i).sound hsound, hstatus', by omega⟩
  have hlast := (hbound ((f 0).pending + 1)).2.2
  omega

/-! ## Schedules -/

theorem Step.of_eq {d' : Conversation} (h : Step capacity c d) (heq : d = d') :
    Step capacity c d' :=
  heq ▸ h

/-- What happens for every byte happens for all of them. -/
theorem runs_bytewise {whole : List UInt8} {f : List UInt8 → Conversation}
    (h : ∀ done b rest, done ++ b :: rest = whole → Runs capacity (f done) (f (done ++ [b]))) :
    Runs capacity (f []) (f whole) := by
  suffices ∀ rest done, done ++ rest = whole → Runs capacity (f done) (f whole) from
    this whole [] rfl
  intro rest
  induction rest with
  | nil =>
    intro done hdone
    rw [List.append_nil] at hdone
    rw [hdone]
  | cons b rest ih =>
    intro done hdone
    have hnext : Runs capacity (f (done ++ [b])) (f whole) :=
      ih (done ++ [b]) (by rw [List.append_assoc]; exact hdone)
    exact (h done b rest hdone).trans hnext

/-- A compiler can write as much as it likes, for the caller gathers it. -/
theorem runs_spoken (hroom : 0 < capacity) (job : Job) (answer complaint : List UInt8) :
    Runs capacity (start job)
      { start job with answer := ⟨[], answer⟩, complaint := ⟨[], complaint⟩ } := by
  have hanswer : Runs capacity (start job) { start job with answer := ⟨[], answer⟩ } := by
    refine runs_bytewise (f := fun done => { start job with answer := ⟨[], done⟩ })
      fun done b _ _ => ?_
    have hput : Step capacity { start job with answer := ⟨[], done⟩ }
        { start job with answer := ⟨[b], done⟩ } := .answer [b] rfl (by simpa [Channel.HasRoom])
    exact .tail (.single hput) (.gatherAnswer 1 (by decide) (by simp))
  have hcomplaint : Runs capacity { start job with answer := ⟨[], answer⟩ }
      { start job with answer := ⟨[], answer⟩, complaint := ⟨[], complaint⟩ } := by
    refine runs_bytewise (f := fun done =>
      { start job with answer := ⟨[], answer⟩, complaint := ⟨[], done⟩ }) fun done b _ _ => ?_
    have hput : Step capacity
        { start job with answer := ⟨[], answer⟩, complaint := ⟨[], done⟩ }
        { start job with answer := ⟨[], answer⟩, complaint := ⟨[b], done⟩ } :=
      .complain [b] rfl (by simpa [Channel.HasRoom])
    exact .tail (.single hput) (.gatherComplaint 1 (by decide) (by simp))
  exact hanswer.trans hcomplaint

/-- A conversation that is over: the rest of the job that nobody would read, how sending it ended,
and what both sides read. -/
def concluded (rest : List UInt8) (sent : Except FileSystem.Fault Unit)
    (heard answer complaint : List UInt8) (status : ExitStatus) : Conversation :=
  ⟨rest, some sent, false, ⟨[], heard⟩, ⟨[], answer⟩, ⟨[], complaint⟩, some status⟩

theorem exchange?_concluded (u : Understanding) (rest : List UInt8)
    (sent : Except FileSystem.Fault Unit) (heard answer complaint : List UInt8)
    (status : ExitStatus) :
    (concluded rest sent heard answer complaint status).exchange? u
      = some ⟨u.result answer, u.text complaint, status, sent,
          if heard = [] then none else some (u.text heard)⟩ := by
  unfold exchange? concluded
  exact if_pos ⟨rfl, rfl⟩

section

variable (job : Job) (answer complaint : List UInt8) (status : ExitStatus)

/-- The compiler reads its job. -/
theorem runs_heard (hroom : 0 < capacity) :
    Runs capacity (start job) (concluded [] (.ok ()) job.bytes answer complaint status) := by
  let reading (rest waiting done : List UInt8) : Conversation :=
    ⟨rest, none, true, ⟨waiting, done⟩, ⟨[], answer⟩, ⟨[], complaint⟩, none⟩
  have hread : Runs capacity (reading job.bytes [] []) (reading [] [] job.bytes) := by
    suffices Runs capacity (reading (job.bytes.drop 0) [] [])
        (reading (job.bytes.drop job.bytes.length) [] job.bytes) by
      rwa [List.drop_zero, List.drop_length] at this
    refine runs_bytewise (f := fun done => reading (job.bytes.drop done.length) [] done)
      fun done b rest hdone => ?_
    have hleft : job.bytes.drop done.length = b :: rest := by rw [← hdone, List.drop_left]
    have hrest : job.bytes.drop (done ++ [b]).length = rest := by
      rw [← hdone, List.append_cons done b rest, List.drop_left]
    rw [hleft, hrest]
    have hput : Step capacity (reading (b :: rest) [] done) (reading rest [b] done) :=
      .handOver 1 rfl rfl (by decide) (by simp [reading]) (by simpa [reading, Channel.HasRoom])
    exact .tail (.single hput) (.read 1 rfl rfl (by decide) (by simp [reading]))
  have hfinish : Step capacity (reading [] [] job.bytes)
      { reading [] [] job.bytes with sent := some (.ok ()) } := .finish rfl rfl
  exact (runs_spoken hroom job answer complaint).trans
    (hread.trans (.tail (.single hfinish) (.exit status rfl)))

/-- The compiler reads nothing, and the whole job fits into the pipe. -/
theorem runs_unread (hroom : 0 < capacity) (hfits : job.bytes.length ≤ capacity) :
    Runs capacity (start job) (concluded [] (.ok ()) [] answer complaint status) := by
  let sent : Conversation :=
    ⟨[], none, true, ⟨job.bytes, []⟩, ⟨[], answer⟩, ⟨[], complaint⟩, none⟩
  have hsome : 0 < job.bytes.length := List.length_pos_iff.mpr job.bytes_ne_nil
  have hput : Step capacity
      { start job with answer := ⟨[], answer⟩, complaint := ⟨[], complaint⟩ } sent :=
    Step.of_eq (.handOver job.bytes.length rfl rfl hsome le_rfl
        (by simpa [start, Channel.HasRoom, Channel.empty] using hfits))
      (by simp [start, sent, Channel.put, Channel.empty])
  have hfinish : Step capacity sent { sent with sent := some (.ok ()) } := .finish rfl rfl
  exact (runs_spoken hroom job answer complaint).trans
    (.tail (.tail (.single hput) hfinish) (.exit status rfl))

/-- The compiler exits before anything is handed over. -/
theorem runs_ignored (hroom : 0 < capacity) :
    Runs capacity (start job)
      (concluded job.bytes (.error .brokenPipe) [] answer complaint status) := by
  have hgiveUp : Runs capacity
      { start job with answer := ⟨[], answer⟩, complaint := ⟨[], complaint⟩ }
      (concluded job.bytes (.error .brokenPipe) [] answer complaint status) :=
    .tail (.single (.exit status rfl)) (.giveUp rfl rfl job.bytes_ne_nil)
  exact (runs_spoken hroom job answer complaint).trans hgiveUp

end

/-! ## Answers -/

/-- The answer of a compiler decides the outcome, unless the compiler forfeits it. When the compiler
has exited, the caller comes to an end, whatever the schedule, and makes of the conversation what
was settled at the exit: the job was sent unless a part of it was left. An answer that is a result
is the outcome unless it is forfeited, and only then, or without such an answer, the compiler is
said to have failed. Conversations in which the compiler answers, complains and exits alike come to
the same, even if the writer ends differently, unless a result is answered with a failing status. -/
theorem answer_decides (u : Understanding) (hrun : Runs capacity (start job) c)
    (hexit : c.status = some status) :
    let e := c.conclusion u status
    (∀ f : Nat → Conversation, f 0 = c → ∃ i, ¬ Step capacity (f i) (f (i + 1)))
      ∧ (∀ d, Runs capacity c d → (∃ d', Step capacity d d') ∨ d.exchange? u = some e)
      ∧ (∀ d, Runs capacity c d → ∀ e' ∈ d.exchange? u, e' = e)
      ∧ (∀ result, e.answer = .ok result → ¬ e.Forfeits → e.outcome = .ok result)
      ∧ (e.Forfeits → e.outcome = .error e.failure)
      ∧ (∀ status' text, e.outcome = .error (.compiler status' text) →
          e.Forfeits ∨ ∀ result, e.answer ≠ .ok result)
      ∧ ∀ (job' : Job) (d : Conversation), Runs capacity (start job') d →
          d.answer.taken = c.answer.carried → d.complaint.taken = c.complaint.carried →
          d.status = some status → (status.isSuccess = true ∨ ∀ result, e.answer ≠ .ok result) →
          ∀ e' ∈ d.exchange? u, e'.outcome.toOption = e.outcome.toOption := by
  intro e
  have hsound := sound_of_runs hrun
  refine ⟨fun f hf => exists_no_step hsound hexit hf, fun d hd => ?_, fun d hd e' he' => ?_,
    fun _ => Exchange.outcome_of_answer, Exchange.outcome_of_forfeits,
    fun _ _ h => (Exchange.of_outcome_eq_compiler h).2, ?_⟩
  · obtain ⟨hsound', hexit', hsame⟩ := settled_of_runs hd hsound hexit
    by_cases hpending : d.pending = 0
    · right
      rw [exchange?_eq u hsound' hexit', if_pos hpending, hsame u]
    · exact .inl (exists_step_of_pending hsound' hexit' hpending)
  · obtain ⟨hsound', hexit', hsame⟩ := settled_of_runs hd hsound hexit
    exact (eq_conclusion_of_exchange? hsound' hexit' he').2.trans (hsame u)
  · intro job' d hd hanswer _ hexit' hdecided e' he'
    obtain ⟨hpending, rfl⟩ := eq_conclusion_of_exchange? (sound_of_runs hd) hexit' he'
    have hgathered : d.answer.waiting = [] := by
      simp only [pending] at hpending
      exact List.length_eq_zero_iff.mp (by omega)
    have hanswers : e.answer = (d.conclusion u status).answer := by
      show u.result c.answer.carried = u.result d.answer.carried
      rw [Channel.carried_of_waiting_nil hgathered, hanswer]
    exact (Exchange.toOption_outcome hanswers rfl hdecided).symm

/-- A compiler that answers without reading its job, and succeeds. Nothing was gathered or given up
yet when it exits, and there is only one thing that can come of it. -/
theorem answer_decides_unread :
    let job := Job.ofSources [⟨"Foo.yarn"⟩] 2
    let braces := "\x7b\x7d".toUTF8.data.toList
    let c : Conversation :=
      ⟨job.bytes, none, false, .empty, ⟨braces, []⟩, .empty, some (.exited 0)⟩
    Runs Compiler.pipeSize (start job) c
      ∧ ∀ d, Runs Compiler.pipeSize c d → (∀ d', ¬ Step Compiler.pipeSize d d') →
          (d.exchange? .strict).map Exchange.outcome = some (.ok ⟨none, .empty, []⟩) := by
  intro job braces c
  have hroom : (start job).answer.HasRoom Compiler.pipeSize braces.length := by
    show 0 + braces.length ≤ Compiler.pipeSize
    decide
  have hanswer : Step Compiler.pipeSize (start job) { start job with answer := ⟨braces, []⟩ } :=
    .answer braces rfl hroom
  have hrun : Runs Compiler.pipeSize (start job) c :=
    .tail (.single hanswer) (.exit (.exited 0) rfl)
  have hresult : (c.conclusion .strict (.exited 0)).answer = .ok ⟨none, .empty, []⟩ := by
    rw [← Compilation.ofText_braces, ← Understanding.strict.result_utf8]
    exact congrArg Understanding.strict.result rfl
  have hkept : ¬ (c.conclusion .strict (.exited 0)).Forfeits := by
    rintro ⟨-, -, hfail⟩
    exact absurd hfail (by decide)
  obtain ⟨-, hend, -, hcounts, -⟩ := answer_decides .strict hrun rfl
  refine ⟨hrun, fun d hd hstuck => ?_⟩
  rw [(hend d hd).resolve_left fun ⟨d', h⟩ => hstuck d' h, Option.map_some,
    hcounts _ hresult hkept]

/-- The exchange of a scripted compiler comes of a conversation. -/
theorem exchange_of_conversation (u : Understanding) (compiler : Compiler) (job : Job) :
    ∃ c, Runs Compiler.pipeSize (start job) c ∧ c.exchange? u = some (compiler.exchange job) := by
  let answer := compiler.answer.toUTF8.data.toList
  let complaint := compiler.complaint.toUTF8.data.toList
  have hroom : 0 < Compiler.pipeSize := by decide
  have hanswer : u.result answer = Compilation.ofText compiler.answer := u.result_utf8 _
  have hcomplaint : u.text complaint = compiler.complaint := u.text_utf8 _
  have hjob : u.text job.bytes = job.text := by rw [Job.bytes, u.text_utf8]
  have hsize : job.bytes.length = job.text.utf8ByteSize := by rw [Job.bytes, length_utf8]
  cases hreads : compiler.readsJob with
  | true =>
    refine ⟨_, runs_heard job answer complaint compiler.status hroom, ?_⟩
    simp [exchange?_concluded, Compiler.exchange, Compiler.send, hanswer, hcomplaint, hjob, hreads,
      job.bytes_ne_nil]
  | false =>
    by_cases hfits : job.text.utf8ByteSize ≤ Compiler.pipeSize
    · refine ⟨_, runs_unread job answer complaint compiler.status hroom (hsize ▸ hfits), ?_⟩
      simp [exchange?_concluded, Compiler.exchange, Compiler.send, hanswer, hcomplaint, hreads,
        hfits]
    · refine ⟨_, runs_ignored job answer complaint compiler.status hroom, ?_⟩
      simp [exchange?_concluded, Compiler.exchange, Compiler.send, hanswer, hcomplaint, hreads,
        hfits]

/-- Of any job, and of any failing compiler that answers with a result, there are two conversations
that differ in nothing but in how much of the job is read: the result counts in one of them and is
forfeited in the other. -/
theorem timing_decides_forfeits (u : Understanding) (hroom : 0 < capacity) (job : Job)
    {answer : List UInt8} {result : Compilation} (hanswer : u.result answer = .ok result)
    (complaint : List UInt8) {status : ExitStatus} (hfail : status.isSuccess = false) :
    ∃ c d, Runs capacity (start job) c ∧ Runs capacity (start job) d
      ∧ c.answer.taken = answer ∧ d.answer = c.answer
      ∧ c.complaint.taken = complaint ∧ d.complaint = c.complaint
      ∧ c.status = some status ∧ d.status = c.status
      ∧ (c.exchange? u).map Exchange.outcome = some (.ok result)
      ∧ (d.exchange? u).map Exchange.outcome
          = some (.error (.compiler status
              (Exchange.complaintText (u.text complaint) (.error .brokenPipe)))) := by
  refine ⟨_, _, runs_heard job answer complaint status hroom,
    runs_ignored job answer complaint status hroom,
    rfl, rfl, rfl, rfl, rfl, rfl, ?_, ?_⟩
  · simp [exchange?_concluded, Exchange.outcome, hanswer]
  · simp [exchange?_concluded, Exchange.outcome, hanswer, hfail]

/-- A compiler that answers and fails: its answer counts if it reads its job, and is lost if it
exits before the job is handed over. -/
theorem failing_answer_lost_unread :
    ∃ c d, Runs Compiler.pipeSize (start (.ofSources [⟨"Foo.yarn"⟩] 2)) c
      ∧ Runs Compiler.pipeSize (start (.ofSources [⟨"Foo.yarn"⟩] 2)) d
      ∧ c.answer.taken = "\x7b\x7d".toUTF8.data.toList ∧ d.answer = c.answer
      ∧ c.complaint.taken = [] ∧ d.complaint = c.complaint
      ∧ c.status = some (.exited 4) ∧ d.status = c.status
      ∧ (c.exchange? .strict).map Exchange.outcome = some (.ok ⟨none, .empty, []⟩)
      ∧ (d.exchange? .strict).map Exchange.outcome
          = some (.error (.compiler (.exited 4)
              "failed to send the job: Broken pipe (os error 32)")) := by
  have hbraces := (Understanding.strict.result_utf8 _).trans Compilation.ofText_braces
  have hcomplaint : Exchange.complaintText (Understanding.strict.text []) (.error .brokenPipe)
      = "failed to send the job: Broken pipe (os error 32)" := by
    rw [show Understanding.strict.text [] = "" from Understanding.strict.text_utf8 ""]
    decide
  rw [← hcomplaint]
  exact timing_decides_forfeits .strict (by decide) _ hbraces [] (by decide)

end Conversation

end DialogueBuild

import ElementLint.Proofs.Linter
import Mathlib.Algebra.GroupWithZero.Nat
import Mathlib.Data.List.Sort
import Mathlib.Logic.Relation

/-!
# Runs with several workers

The files of a run may be looked at by several workers at the same time. A `Pool` is such a run at
one moment, and a `Pool.Step` is anything that may happen in it next, so that every order in which
the workers get on is a path of steps.

The main result is `Linter.lint_workers`: every run comes to an end, and at every end, whatever the
number of workers and whatever they did in which order, stands the result of `Linter.lint`.

* `Pool.Consistent` is the invariant: the files that wait, those that workers hold and those with a
  report are the files of the run, each in one of these places.
* `Pool.Step.work_lt` bounds the runs: every step uses up some of the work that is left.
* `Pool.sortOutcomes_zip` says why reports get back to their files: sorting the reports by their
  places undoes whatever the order of the steps did.
-/

namespace ElementLint

/-- A file to look at and its place among the files of a run. -/
structure Job where
  url : String
  place : Nat
  deriving DecidableEq, Repr

/-- What a worker does. -/
inductive Worker where
  /-- It is about to ask for a job. -/
  | idle
  /-- It looks at a file. -/
  | busy (job : Job)
  /-- It has aborted over a file. -/
  | aborted (job : Job)
  /-- It has found no more jobs. -/
  | finished
  deriving DecidableEq, Repr

/-- A run at one moment. -/
structure Pool where
  /-- The jobs that nobody has taken yet. -/
  queue : List Job
  workers : List Worker
  /-- The reports so far with the places of their files, in the order in which they came. -/
  outcomes : List (Nat × FileReport)

/-- The jobs that a worker holds. -/
def Worker.held : Worker → List Job
  | .busy job => [job]
  | .aborted job => [job]
  | .idle => []
  | .finished => []

/-- Whether a worker has aborted. -/
def Worker.isAborted : Worker → Bool
  | .aborted _ => true
  | _ => false

/-- The jobs of some files. -/
def Job.ofUrls (urls : List String) : List Job :=
  urls.zipIdx.map fun (url, place) => ⟨url, place⟩

theorem Job.mem_ofUrls {urls : List String} {job : Job} :
    job ∈ Job.ofUrls urls ↔ urls[job.place]? = some job.url := by
  obtain ⟨url, place⟩ := job
  simp [Job.ofUrls, List.mem_zipIdx_iff_getElem?]

theorem Job.map_url_ofUrls (urls : List String) : (Job.ofUrls urls).map Job.url = urls := by
  rw [Job.ofUrls, List.map_map]
  exact List.zipIdx_map_fst 0 urls

theorem Job.map_place_ofUrls (urls : List String) :
    (Job.ofUrls urls).map Job.place = List.range' 0 urls.length := by
  rw [Job.ofUrls, List.map_map]
  exact List.zipIdx_map_snd 0 urls

namespace Pool

/-- The start of a run over some files. There are never more workers than files. -/
def start (count : Nat) (urls : List String) : Pool where
  queue := Job.ofUrls urls
  workers := List.replicate (min count urls.length) .idle
  outcomes := []

/-- What may happen next in a run: one worker takes a job, delivers its report, aborts, or finds
that there are no more jobs. -/
inductive Step (linter : Linter) : Pool → Pool → Prop
  | take (job : Job) (queue : List Job) (before after : List Worker)
      (outcomes : List (Nat × FileReport)) :
      Step linter ⟨job :: queue, before ++ .idle :: after, outcomes⟩
        ⟨queue, before ++ .busy job :: after, outcomes⟩
  | deliver (job : Job) (report : FileReport) (queue : List Job) (before after : List Worker)
      (outcomes : List (Nat × FileReport)) : linter.lintFile job.url = .done report →
      Step linter ⟨queue, before ++ .busy job :: after, outcomes⟩
        ⟨queue, before ++ .idle :: after, outcomes ++ [(job.place, report)]⟩
  | abort (job : Job) (message : Option String) (queue : List Job) (before after : List Worker)
      (outcomes : List (Nat × FileReport)) : linter.lintFile job.url = .aborted message →
      Step linter ⟨queue, before ++ .busy job :: after, outcomes⟩
        ⟨queue, before ++ .aborted job :: after, outcomes⟩
  | finish (before after : List Worker) (outcomes : List (Nat × FileReport)) :
      Step linter ⟨[], before ++ .idle :: after, outcomes⟩
        ⟨[], before ++ .finished :: after, outcomes⟩

/-- A run comes from one moment to another one. -/
abbrev Reaches (linter : Linter) : Pool → Pool → Prop :=
  Relation.ReflTransGen (Step linter)

/-- No worker of a run does anything any more. -/
def IsComplete (pool : Pool) : Prop :=
  ∀ worker ∈ pool.workers, worker = .finished ∨ worker.isAborted = true

/-- The reports in the order of their places. -/
def sortOutcomes (outcomes : List (Nat × FileReport)) : List (Nat × FileReport) :=
  outcomes.mergeSort (fun a b => decide (a.1 ≤ b.1))

/-- The result of a run over some files at its end. -/
def result (linter : Linter) (urls : List String) (pool : Pool) : Except LintError LintResults :=
  if pool.workers.any Worker.isAborted then .error .workerAborted
  else .ok (linter.gather (((sortOutcomes pool.outcomes).zip urls).map
    fun (outcome, url) => (url, outcome.2)))

variable {linter : Linter} {urls : List String} {jobs : List Job} {pool pool' final : Pool}

/-! ### What a step uses up -/

/-- The steps that a worker may still make without another job. -/
def workOf : Worker → Nat
  | .idle => 1
  | .busy _ => 2
  | .aborted _ => 0
  | .finished => 0

/-- A bound on the steps that are left in a run. -/
def work (pool : Pool) : Nat :=
  2 * pool.queue.length + (pool.workers.map workOf).sum

/-- Every step uses up work. -/
theorem Step.work_lt (h : Step linter pool pool') : pool'.work < pool.work := by
  cases h with
  | take =>
    simp only [work, workOf, List.length_cons, List.map_append, List.map_cons, List.sum_append,
      List.sum_cons]
    omega
  | deliver | abort | finish =>
    simp only [work, workOf, List.map_append, List.map_cons, List.sum_append, List.sum_cons]
    omega

/-- A run that is not over goes on. -/
theorem exists_step_of_not_isComplete (linter : Linter) (h : ¬ pool.IsComplete) :
    ∃ pool', Step linter pool pool' := by
  obtain ⟨queue, workers, outcomes⟩ := pool
  simp only [IsComplete, not_forall, not_or] at h
  obtain ⟨worker, hmem, hfinished, haborted⟩ := h
  obtain ⟨before, after, rfl⟩ := List.append_of_mem hmem
  cases worker with
  | idle =>
    cases queue with
    | nil => exact ⟨_, .finish before after outcomes⟩
    | cons job queue => exact ⟨_, .take job queue before after outcomes⟩
  | busy job =>
    cases hlint : linter.lintFile job.url with
    | done report => exact ⟨_, .deliver job report queue before after outcomes hlint⟩
    | failed error => exact absurd hlint (Linter.lintFile_ne_failed linter job.url error)
    | aborted message => exact ⟨_, .abort job message queue before after outcomes hlint⟩
  | aborted job => exact absurd rfl haborted
  | finished => exact absurd rfl hfinished

/-- Every run comes to an end. -/
theorem exists_isComplete (linter : Linter) (pool : Pool) :
    ∃ final, Reaches linter pool final ∧ final.IsComplete := by
  induction hwork : pool.work using Nat.strongRecOn generalizing pool with
  | ind work ih =>
    by_cases hcomplete : pool.IsComplete
    · exact ⟨pool, .refl, hcomplete⟩
    · obtain ⟨next, hstep⟩ := exists_step_of_not_isComplete linter hcomplete
      obtain ⟨final, hreaches, hfinal⟩ := ih next.work (hwork ▸ hstep.work_lt) next rfl
      exact ⟨final, hreaches.head hstep, hfinal⟩

/-! ### Where the jobs are -/

/-- The report on the file of a job with its place. -/
def outcomeOf (linter : Linter) (job : Job) : Nat × FileReport :=
  (job.place, linter.reportOf job.url)

/-- The jobs of a run are in the queue, with a worker or reported on, each in one of these
places. -/
structure Consistent (linter : Linter) (jobs : List Job) (pool : Pool) : Prop where
  /-- `answered` are the jobs with a report, in the order of the reports. -/
  partition : ∃ answered, pool.outcomes = answered.map (outcomeOf linter) ∧
    (pool.queue ++ pool.workers.flatMap Worker.held ++ answered).Perm jobs ∧
    ∀ job ∈ answered, linter.lintFile job.url = .done (linter.reportOf job.url)
  /-- A worker only aborts over a file over which the linter aborts. -/
  aborted : ∀ job, .aborted job ∈ pool.workers →
    ∃ message, linter.lintFile job.url = .aborted message
  /-- Workers only finish, and are only missing, where there are no more jobs. -/
  drained : .finished ∈ pool.workers ∨ pool.workers = [] → pool.queue = []

theorem consistent_start (linter : Linter) (urls : List String) {count : Nat}
    (hcount : 0 < count) : Consistent linter (Job.ofUrls urls) (start count urls) where
  partition := by
    refine ⟨[], rfl, ?_, by simp⟩
    simp [start, List.flatMap_replicate, Worker.held]
  aborted := by simp [start]
  drained := by
    rintro (hfinished | hnone)
    · simp [start] at hfinished
    · -- without workers there are no files
      have hmin : min count urls.length = 0 := by simpa [start] using hnone
      have hurls : urls = [] := by
        rw [← List.length_eq_zero_iff]
        omega
      simp [start, Job.ofUrls, hurls]

/-- Every step keeps the jobs together. -/
theorem Consistent.step (h : Consistent linter jobs pool) (hstep : Step linter pool pool') :
    Consistent linter jobs pool' := by
  obtain ⟨⟨answered, houtcomes, hperm, hdone⟩, haborted, hdrained⟩ := h
  cases hstep with
  | take job queue before after outcomes =>
    refine ⟨⟨answered, houtcomes, ?_, hdone⟩, ?_, ?_⟩
    · -- the job goes from the queue to the worker
      rw [List.perm_iff_count] at hperm ⊢
      intro other
      rw [← hperm other]
      simp [Worker.held, List.count_cons]
      omega
    · intro other hmem
      exact haborted other (by simpa using hmem)
    · intro hworkers
      exact absurd (hdrained (by simpa using hworkers)) (List.cons_ne_nil _ _)
  | deliver job report queue before after outcomes hlint =>
    have hreport : linter.reportOf job.url = report := by rw [Linter.reportOf, hlint]
    refine ⟨⟨answered ++ [job], ?_, ?_, ?_⟩, ?_, ?_⟩
    · rw [List.map_append, ← houtcomes]
      simp [outcomeOf, hreport]
    · -- the job goes from the worker to the reports
      rw [List.perm_iff_count] at hperm ⊢
      intro other
      rw [← hperm other]
      simp [Worker.held, List.count_cons]
      omega
    · intro other hmem
      rcases List.mem_append.1 hmem with hmem | hmem
      · exact hdone other hmem
      · obtain rfl := List.mem_singleton.1 hmem
        rw [hlint, hreport]
    · intro other hmem
      exact haborted other (by simpa using hmem)
    · intro hworkers
      exact hdrained (by simpa using hworkers)
  | abort job message queue before after outcomes hlint =>
    refine ⟨⟨answered, houtcomes, ?_, hdone⟩, ?_, ?_⟩
    · simpa [Worker.held] using hperm
    · intro other hmem
      by_cases hother : other = job
      · exact ⟨message, hother ▸ hlint⟩
      · exact haborted other (by simpa [hother] using hmem)
    · intro hworkers
      exact hdrained (by simpa using hworkers)
  | finish before after outcomes =>
    refine ⟨⟨answered, houtcomes, ?_, hdone⟩, ?_, fun _ => rfl⟩
    · simpa [Worker.held] using hperm
    · intro other hmem
      exact haborted other (by simpa using hmem)

/-- Every run keeps the jobs together. -/
theorem Consistent.reaches (h : Consistent linter jobs pool)
    (hreaches : Reaches linter pool final) : Consistent linter jobs final := by
  induction hreaches with
  | refl => exact h
  | tail _ hstep ih => exact ih.step hstep

/-! ### The end of a run -/

/-- At the end of a run either a worker has aborted over one of the files, or there is a report for
every file. -/
theorem Consistent.of_isComplete (h : Consistent linter jobs final) (hcomplete : final.IsComplete) :
    (final.workers.any Worker.isAborted = true ∧
        ∃ job ∈ jobs, ∃ message, linter.lintFile job.url = .aborted message) ∨
      (final.workers.any Worker.isAborted = false ∧
        final.outcomes.Perm (jobs.map (outcomeOf linter)) ∧
        ∀ job ∈ jobs, linter.lintFile job.url = .done (linter.reportOf job.url)) := by
  obtain ⟨⟨answered, houtcomes, hperm, hdone⟩, haborted, hdrained⟩ := h
  cases hany : final.workers.any Worker.isAborted with
  | true =>
    obtain ⟨worker, hmem, hworker⟩ := List.any_eq_true.1 hany
    cases worker with
    | aborted job =>
      refine .inl ⟨rfl, job, ?_, haborted job hmem⟩
      refine hperm.subset (List.mem_append_left _ (List.mem_append_right _ ?_))
      exact List.mem_flatMap.2 ⟨_, hmem, by simp [Worker.held]⟩
    | idle | busy | finished => contradiction
  | false =>
    have hfinished : ∀ worker ∈ final.workers, worker = .finished := by
      intro worker hmem
      have hnot := List.any_eq_false.1 hany worker hmem
      exact (hcomplete worker hmem).resolve_right hnot
    -- somebody has found the queue empty, or there was nothing to do at all
    have hqueue : final.queue = [] := by
      refine hdrained ?_
      rcases List.eq_nil_or_concat final.workers with hnil | ⟨rest, worker, hconcat⟩
      · exact .inr hnil
      · have hmem : worker ∈ final.workers := by simp [hconcat]
        exact .inl (hfinished worker hmem ▸ hmem)
    have hheld : final.workers.flatMap Worker.held = [] := by
      refine List.flatMap_eq_nil_iff.2 fun worker hmem => ?_
      rw [hfinished worker hmem, Worker.held]
    rw [hqueue, hheld, List.append_nil, List.nil_append] at hperm
    refine .inr ⟨rfl, houtcomes ▸ hperm.map _, fun job hmem => hdone job (hperm.symm.subset hmem)⟩

theorem map_fst_outcomeOf (linter : Linter) (urls : List String) :
    ((Job.ofUrls urls).map (outcomeOf linter)).map Prod.fst = List.range' 0 urls.length := by
  rw [← Job.map_place_ofUrls, List.map_map]
  rfl

/-- Sorting puts the reports on some files into the order of the files. -/
theorem sortOutcomes_eq {outcomes : List (Nat × FileReport)}
    (h : outcomes.Perm ((Job.ofUrls urls).map (outcomeOf linter))) :
    sortOutcomes outcomes = (Job.ofUrls urls).map (outcomeOf linter) := by
  have hsorted : (sortOutcomes outcomes).Pairwise (fun a b => decide (a.1 ≤ b.1) = true) := by
    refine List.pairwise_mergeSort (fun a b c hab hbc => ?_) (fun a b => ?_) _
    · simp only [decide_eq_true_eq] at hab hbc ⊢
      exact hab.trans hbc
    · simp only [Bool.or_eq_true, decide_eq_true_eq]
      exact Nat.le_total _ _
  have hordered : ((Job.ofUrls urls).map (outcomeOf linter)).Pairwise
      (fun a b => decide (a.1 ≤ b.1) = true) := by
    simp only [decide_eq_true_eq]
    rw [← List.pairwise_map (f := Prod.fst) (R := (· ≤ ·)), map_fst_outcomeOf]
    exact (List.pairwise_lt_range' 1).imp Nat.le_of_lt
  have hperm := (List.mergeSort_perm outcomes (fun a b => decide (a.1 ≤ b.1))).trans h
  refine List.Perm.eq_of_pairwise (fun a b ha hb hab hba => ?_) hsorted hordered hperm
  -- reports with the same place belong to the same job, since a place has one file
  obtain ⟨first, hfirst, rfl⟩ := List.mem_map.1 (hperm.subset ha)
  obtain ⟨second, hsecond, rfl⟩ := List.mem_map.1 hb
  simp only [decide_eq_true_eq] at hab hba
  have hplace : first.place = second.place := Nat.le_antisymm hab hba
  rw [Job.mem_ofUrls, hplace, Job.mem_ofUrls.1 hsecond, Option.some.injEq] at hfirst
  rw [outcomeOf, outcomeOf, hplace, hfirst]

/-- The sorted reports get back to their files. -/
theorem sortOutcomes_zip {outcomes : List (Nat × FileReport)}
    (h : outcomes.Perm ((Job.ofUrls urls).map (outcomeOf linter))) :
    ((sortOutcomes outcomes).zip urls).map (fun (outcome, url) => (url, outcome.2)) =
      urls.map fun url => (url, linter.reportOf url) := by
  have hzip : ((Job.ofUrls urls).map (outcomeOf linter)).zip urls =
      (Job.ofUrls urls).map fun job => (outcomeOf linter job, job.url) := by
    have hzip := List.zip_map' (f := outcomeOf linter) (g := Job.url) (l := Job.ofUrls urls)
    rwa [Job.map_url_ofUrls] at hzip
  rw [sortOutcomes_eq h, hzip, List.map_map]
  conv_rhs => rw [← Job.map_url_ofUrls urls, List.map_map]
  rfl

end Pool

namespace Linter

/-- Every linter that is made from a configuration has a worker, whatever the configuration says. -/
theorem workers_pos_of_ofConfig {registry : Registry} {loader : Loader} {config : Config}
    {linter : Linter} (h : ofConfig registry loader config = .ok linter) : 0 < linter.workers := by
  obtain ⟨rules, -, h⟩ := Except.bind_eq_ok h
  obtain ⟨patterns, -, h⟩ := Except.bind_eq_ok h
  obtain rfl := Except.ok.inj h
  exact Nat.lt_of_lt_of_le Nat.one_pos (Nat.le_max_left _ _)

variable {linter : Linter} {urls : List String} {final : Pool}

/-- At the end of a run stands the result of looking at the files one after the other. -/
theorem result_eq_lint (h : Pool.Consistent linter (Job.ofUrls (linter.selected urls)) final)
    (hcomplete : final.IsComplete) :
    final.result linter (linter.selected urls) = linter.lint urls := by
  rcases h.of_isComplete hcomplete with ⟨hany, job, hjob, message, hlint⟩ | ⟨hany, hperm, hdone⟩
  · -- the loader aborts over the file of the job
    have hurl : job.url ∈ linter.selected urls := List.mem_of_getElem? (Job.mem_ofUrls.1 hjob)
    have haborts := lintFile_eq_aborted.1 hlint
    rw [Pool.result, if_pos hany, lint_eq_error ⟨job.url, hurl, message, haborts⟩]
  · -- the loader aborts over no file
    have hnever : ∀ url ∈ urls, linter.ignoresFile url = false →
        ∀ message, linter.loader.load url ≠ .aborted message := by
      intro url hmem hignored message hload
      have hurl := mem_selected.2 ⟨hmem, hignored⟩
      rw [← Job.map_url_ofUrls (linter.selected urls)] at hurl
      obtain ⟨job, hjob, rfl⟩ := List.mem_map.1 hurl
      have hlint := (hdone job hjob).symm.trans (lintFile_eq_aborted.2 hload)
      contradiction
    rw [Pool.result, hany, if_neg Bool.false_ne_true, Pool.sortOutcomes_zip hperm, lint_eq hnever,
      resultsOf]

/-- At the end of a run whose loader does not abort there is one report for every file. -/
theorem outcomes_perm (h : Pool.Consistent linter (Job.ofUrls (linter.selected urls)) final)
    (hcomplete : final.IsComplete)
    (hnever : ∀ url ∈ linter.selected urls, ∀ message, linter.loader.load url ≠ .aborted message) :
    final.outcomes.Perm ((linter.selected urls).zipIdx.map fun (url, place) =>
      (place, linter.reportOf url)) := by
  rcases h.of_isComplete hcomplete with ⟨-, job, hjob, message, hlint⟩ | ⟨-, hperm, -⟩
  · have hurl : job.url ∈ linter.selected urls := List.mem_of_getElem? (Job.mem_ofUrls.1 hjob)
    exact absurd (lintFile_eq_aborted.1 hlint) (hnever job.url hurl message)
  · rw [Job.ofUrls, List.map_map] at hperm
    exact hperm

/-- A run by any number of workers. It comes to an end from wherever it is. At every end its result
is that of looking at the files one after the other, so it depends neither on the number of workers
nor on the order in which they get on: no result if the loader aborts over a file that is linted,
and otherwise one report for every file that is linted, the warnings in the order of the files, and
the texts of the files that were loaded. -/
theorem lint_workers (linter : Linter) (urls : List String) (count : Nat) (hcount : 0 < count) :
    (∀ registry loader config, ofConfig registry loader config = .ok linter →
        0 < linter.workers) ∧
      (∀ pool, Pool.Reaches linter (.start count (linter.selected urls)) pool →
        ∃ final, Pool.Reaches linter pool final ∧ final.IsComplete) ∧
      ∀ final, Pool.Reaches linter (.start count (linter.selected urls)) final →
        final.IsComplete →
          final.result linter (linter.selected urls) = linter.lint urls ∧
          ((∃ url ∈ urls, linter.ignoresFile url = false ∧
              ∃ message, linter.loader.load url = .aborted message) →
            final.result linter (linter.selected urls) = .error .workerAborted) ∧
          ((∀ url ∈ urls, linter.ignoresFile url = false →
              ∀ message, linter.loader.load url ≠ .aborted message) →
            final.outcomes.Perm ((linter.selected urls).zipIdx.map fun (url, place) =>
              (place, linter.reportOf url)) ∧
            ∃ results, final.result linter (linter.selected urls) = .ok results ∧
              results.warnings =
                (linter.selected urls).flatMap (fun url => (linter.reportOf url).warnings) ∧
              ∀ url text, results.contents.get? url = some text ↔
                (url ∈ urls ∧ linter.ignoresFile url = false) ∧
                  linter.loader.load url = .done text) := by
  refine ⟨fun registry loader config h => workers_pos_of_ofConfig h,
    fun pool _ => Pool.exists_isComplete linter pool, fun final hreaches hcomplete => ?_⟩
  have hconsistent := (Pool.consistent_start linter (linter.selected urls) hcount).reaches hreaches
  have hresult := result_eq_lint hconsistent hcomplete
  refine ⟨hresult, ?_, fun hnever => ?_⟩
  · rintro ⟨url, hmem, hignored, message, hload⟩
    exact hresult.trans (lint_eq_error ⟨url, mem_selected.2 ⟨hmem, hignored⟩, message, hload⟩)
  · have hnever' : ∀ url ∈ linter.selected urls, ∀ message,
        linter.loader.load url ≠ .aborted message := by
      intro url hurl
      exact hnever url (mem_selected.1 hurl).1 (mem_selected.1 hurl).2
    refine ⟨outcomes_perm hconsistent hcomplete hnever', linter.resultsOf urls,
      hresult.trans (lint_eq hnever), ?_, fun url text => ?_⟩
    · rw [resultsOf, gather, List.flatMap_map]
    · rw [get?_contents_eq_some_iff hnever', mem_selected]

/-- Two of at most five workers look at two files of which the first one is missing. The report on
the second file comes first, but the results are in the order of the files. -/
theorem lint_workers_overtaken :
    let linter : Linter := { rules := [], loader := .ofTable ⟨[("b", "text")]⟩ }
    ∃ final : Pool, Pool.Reaches linter (.start 5 (linter.selected ["a", "b"])) final ∧
      final.IsComplete ∧ final.outcomes.map Prod.fst = [1, 0] ∧
      0 < 5 ∧ (∀ url ∈ ["a", "b"], linter.ignoresFile url = false →
        ∀ message, linter.loader.load url ≠ .aborted message) ∧
      ∃ results, final.result linter (linter.selected ["a", "b"]) = .ok results ∧
        linter.lint ["a", "b"] = .ok results ∧
        results.warnings = [loadWarning "a" (.notLoaded "a" .unknownName)] ∧
        results.contents.get? "b" = some "text" := by
  intro linter
  have hselected : linter.selected ["a", "b"] = ["a", "b"] := rfl
  have hnever : ∀ url ∈ ["a", "b"], linter.ignoresFile url = false →
      ∀ message, linter.loader.load url ≠ .aborted message := by
    intro url hmem _ message hload
    obtain rfl | rfl : url = "a" ∨ url = "b" := by simpa using hmem
    · cases hload
    · cases hload
  have hfirst := lintFile_eq_done (hnever "a" (by simp) rfl)
  have hsecond := lintFile_eq_done (hnever "b" (by simp) rfl)
  have hreaches : Pool.Reaches linter (.start 5 ["a", "b"]) ⟨[], [.finished, .finished],
      [(1, linter.reportOf "b"), (0, linter.reportOf "a")]⟩ := by
    -- both workers have a job before the second one delivers the first report
    refine .head (.take ⟨"a", 0⟩ [⟨"b", 1⟩] [] [.idle] []) ?_
    refine .head (.take ⟨"b", 1⟩ [] [.busy ⟨"a", 0⟩] [] []) ?_
    refine .head (.deliver ⟨"b", 1⟩ _ [] [.busy ⟨"a", 0⟩] [] [] hsecond) ?_
    refine .head (.deliver ⟨"a", 0⟩ _ [] [] [.idle] _ hfirst) ?_
    refine .head (.finish [] [.idle] _) ?_
    exact .head (.finish [.finished] [] _) .refl
  have hcomplete : Pool.IsComplete ⟨[], [.finished, .finished],
      [(1, linter.reportOf "b"), (0, linter.reportOf "a")]⟩ := by
    simp [Pool.IsComplete]
  obtain ⟨-, -, hend⟩ := lint_workers linter ["a", "b"] 5 (by decide)
  obtain ⟨hlint, -, hresults⟩ := hend _ hreaches hcomplete
  obtain ⟨-, results, hresult, hwarnings, hcontents⟩ := hresults hnever
  refine ⟨_, hreaches, hcomplete, rfl, by decide, hnever, results, hresult,
    hlint.symm.trans hresult, ?_, ?_⟩
  · rw [hwarnings, hselected]
    have hmissing : linter.loader.load "a" = .failed (.notLoaded "a" .unknownName) := rfl
    have hloaded : linter.loader.load "b" = .done "text" := rfl
    simp [reportOf_of_failed hmissing, reportOf_of_done hloaded, checkDocument, keep, sortWarnings,
      linter]
  · exact (hcontents "b" "text").2 ⟨⟨by simp, rfl⟩, rfl⟩

end Linter

end ElementLint

import StaticSite.Proofs.Passes

/-! The report of a pass whose files are divided among workers. Each worker counts the files of its
own part, and the reports are added two at a time. However the files are divided, every one of them
is counted once. -/
namespace StaticSite.BuildReport

/-- How outcomes are divided. A part is counted from nothing, and a worker without a part reports
nothing. -/
inductive Division
  | idle
  | part (outcomes : List (Option Outcome))
  | both (first second : Division)
  deriving DecidableEq, Repr

namespace Division

def outcomes : Division → List (Option Outcome)
  | .idle => []
  | .part outcomes => outcomes
  | .both first second => first.outcomes ++ second.outcomes

def report : Division → BuildReport
  | .idle => {}
  | .part outcomes => outcomes.foldl record {}
  | .both first second => first.report + second.report

end Division

theorem ofOutcomes_append (outcomes more : List (Option Outcome)) :
    ofOutcomes (outcomes ++ more) = ofOutcomes outcomes + ofOutcomes more := by
  simp only [ofOutcomes_eq, List.count_append]
  rfl

theorem Division.report_eq (d : Division) : d.report = ofOutcomes d.outcomes := by
  induction d with
  | idle => rfl
  | part outcomes => rfl
  | both first second hfirst hsecond => rw [report, outcomes, ofOutcomes_append, hfirst, hsecond]

theorem exists_made_of_buildTree {b : Builder} {before : FileSystem} {report : BuildReport}
    (h : (b.buildTree before).result = .ok report) :
    ∃ made, before.makeAll b.destination = (made, none) ∧
      report = ofOutcomes (b.buildFiles made (Builder.files (b.collect made).1)).result ∧
      report.total = (Builder.files (b.collect made).1).length := by
  obtain ⟨made, hpass⟩ := Builder.pass_of_buildTree h
  refine ⟨made, hpass.makes, hpass.reports.symm, ?_⟩
  rw [← hpass.reports, total_ofOutcomes, Builder.length_buildFiles]

/-- Whatever the division, its report tells how often each outcome occurs, and all of them make up
the outcomes. So a build has the same report for every division of its outcomes, which counts every
listed file. -/
theorem Division.report_counts (d : Division) :
    d.report = ⟨d.outcomes.count (some .transformed), d.outcomes.count (some .copied),
        d.outcomes.count (some .skipped), d.outcomes.count none⟩ ∧
      d.report.total = d.outcomes.length ∧
      ∀ (b : Builder) (before : FileSystem) (report : BuildReport), (b.buildTree before).result =
        .ok report →
        ∃ made, before.makeAll b.destination = (made, none) ∧
          report.total = (Builder.files (b.collect made).1).length ∧
          (d.outcomes = (b.buildFiles made (Builder.files (b.collect made).1)).result →
            d.report = report) := by
  refine ⟨?_, ?_, fun b before report hbuild => ?_⟩
  · rw [d.report_eq, ofOutcomes_eq]
  · rw [d.report_eq, total_ofOutcomes]
  · obtain ⟨made, hmade, hreport, htotal⟩ := exists_made_of_buildTree hbuild
    refine ⟨made, hmade, htotal, fun houtcomes => ?_⟩
    rw [d.report_eq, houtcomes, hreport]

example :
    (Division.both (.part [some .copied, none])
      (.both .idle (.part [some .skipped, none]))).report =
    ⟨0, 1, 1, 2⟩ := by
  decide

end StaticSite.BuildReport

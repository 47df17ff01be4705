import Conformance.Proofs.Keyed
import Conformance.Proofs.Render.Junit
import Conformance.Proofs.Text.ColorCodes
import Conformance.Proofs.Time.Rfc3339
import Conformance.Render.Terminal
import Mathlib.Tactic.SplitIfs

/-!
Colours of the text report. They come with the states of checks and with the titles of logs only,
and both stand between characters that belong to no colour, so that a report without its colours is
the same whether or not it was coloured. A report without colours has no escape character but those
of the texts that it shows.
-/
namespace Conformance.Render.Terminal

open Text

section Colors

variable {lead text code : String}

theorem likeColored_colored (hlead : EndsApart lead) (htext : EndsApart text)
    (hne : code.toList ≠ []) (hdigits : code.toList.all Char.isDigit = true) (verbose : Bool) :
    LikeColored (lead ++ colored ⟨true, verbose⟩ code text)
      (lead ++ colored ⟨false, verbose⟩ code text) := by
  have hon : ("\x1b[" ++ code ++ "m").toList = colorCode code.toList := by simp [colorCode]
  have hoff : "\x1b[0m".toList = colorCode ['0'] := rfl
  refine likeColored_between hlead htext (fun ds => ?_) (fun ds => ?_)
  · rw [hon, removeCodesFrom_colorCode hne hdigits]
  · rw [hoff, removeCodesFrom_colorCode (by decide) rfl]

theorem likeColored_statusText (verbose : Bool) (state : CheckState) :
    LikeColored ("  " ++ statusText ⟨true, verbose⟩ state)
      ("  " ++ statusText ⟨false, verbose⟩ state) := by
  have hlead : EndsApart "  " := ⟨[' '], ' ', rfl, by decide⟩
  have hclose (s : String) : EndsApart (s ++ "]") := ⟨s.toList, ']', by simp, by decide⟩
  cases state with
  | passed => exact likeColored_colored hlead (hclose "[ PASS ") (by decide) rfl verbose
  | failed => exact likeColored_colored hlead (hclose "[ FAIL ") (by decide) rfl verbose
  | skipped => exact likeColored_colored hlead (hclose "[ SKIP ") (by decide) rfl verbose
  | error => exact likeColored_colored hlead (hclose "[ ERROR ") (by decide) rfl verbose
  | aborted => exact likeColored_colored hlead (hclose "[ ABORTED ") (by decide) rfl verbose

theorem likeColored_checkLines (verbose : Bool) (g : GroupReport) (r : Record) :
    LikeColored (checkLines ⟨true, verbose⟩ g r) (checkLines ⟨false, verbose⟩ g r) := by
  have hstatus := likeColored_statusText verbose r.state
  have hrest (t : String) := hstatus.append (.refl t)
  simpa only [checkLines, reasonText, String.append_assoc] using hrest _

theorem likeColored_logBox (verbose : Bool) (id log : String) :
    LikeColored (logBox ⟨true, verbose⟩ id log) (logBox ⟨false, verbose⟩ id log) := by
  have hlead (s : String) : EndsApart (s ++ "\n| ") :=
    ⟨s.toList ++ ['\n', '|'], ' ', by simp, by decide⟩
  have htitle : EndsApart ("LOG (" ++ id ++ ")") :=
    ⟨("LOG (" ++ id).toList, ')', by simp, by decide⟩
  have hhead (s : String) :
      LikeColored (s ++ "\n| " ++ colored ⟨true, verbose⟩ "36" ("LOG (" ++ id ++ ")"))
        (s ++ "\n| " ++ colored ⟨false, verbose⟩ "36" ("LOG (" ++ id ++ ")")) :=
    likeColored_colored (hlead s) htitle (by decide) rfl verbose
  have hrest (s t : String) := (hhead s).append (.refl t)
  simpa only [logBox, String.append_assoc] using hrest _ _

/-- What of a report stands before the lines of its checks. -/
def head (r : RunReport) : String :=
  rule ++ "\ncheckrun report\nLabel filter: " ++ r.labelFilter ++ "\nStarted: "
    ++ r.startedAt.rfc3339 "+00:00" ++ "\n" ++ rule ++ "\n\n"

def abortLine : Option String → String
  | some reason => "Run aborted: " ++ reason ++ "\n"
  | none => ""

/-- What stands behind the logs of the failed checks. -/
def tail (r : RunReport) : String :=
  rule ++ "\n" ++ totals r.summary
    ++ "Total time: " ++ Number.thousandths 1 r.durationMs.toNat ++ "s\n"
    ++ abortLine r.abortReason
    ++ String.join (r.errors.map fun error => "Error: " ++ error ++ "\n") ++ rule

/-- Nothing but the lines of the checks and the logs goes by the style. -/
theorem render_eq (style : Style) (r : RunReport) : render style r =
    head r ++ String.join (r.ordered.map fun (g, record) => checkLines style g record) ++
      ("\n" ++ table r.groups ++ "\n") ++
      String.join (r.failedLogs.map fun (id, log) => logBox style id log) ++ tail r := by
  unfold render head tail abortLine
  cases r.abortReason <;> simp only [String.append_assoc]

theorem likeColored_render (verbose : Bool) (r : RunReport) :
    LikeColored (render ⟨true, verbose⟩ r) (render ⟨false, verbose⟩ r) := by
  have hchecks := LikeColored.join (fun row : GroupReport × Record =>
    likeColored_checkLines verbose row.1 row.2) r.ordered
  have hlogs := LikeColored.join (fun log : String × String =>
    likeColored_logBox verbose log.1 log.2) r.failedLogs
  rw [render_eq, render_eq]
  exact ((((LikeColored.refl _).append hchecks).append (.refl _)).append hlogs).append (.refl _)

end Colors

section Texts

/-- What is shown of a check: its group, its id, the beginning of its reason and its output. -/
def checkTexts (verbose : Bool) (g : GroupReport) (r : Record) : List String :=
  [g.name, r.testId.id] ++
    (if r.reason.isEmpty || (r.state == .failed && !verbose) then []
    else (lines r.reason).head?.toList) ++
    (if verbose then lines r.output else [])

def logTexts (id log : String) : List String :=
  if log.isEmpty then [id] else [id, trimEnd log]

/-- The texts of a report that are shown, in the order in which they are shown. -/
def shown (verbose : Bool) (r : RunReport) : List String :=
  [r.labelFilter] ++ (r.ordered.flatMap fun (g, record) => checkTexts verbose g record) ++
    r.groups.map (·.name) ++ (r.failedLogs.flatMap fun (id, log) => logTexts id log) ++
    (r.abortReason.toList ++ r.errors)

theorem plain_of_legible {s : String} (h : Xml.Legible s.toList) : Plain s :=
  fun hesc => absurd (h _ hesc) (by decide)

theorem plain_toString (n : Nat) : Plain (toString n) :=
  plain_of_legible (Junit.legible_toString_nat n)

theorem plain_replicate {c : Char} (h : c ≠ '\x1b') (n : Nat) :
    Plain (String.ofList (List.replicate n c)) := by
  rw [Plain, String.toList_ofList]
  exact fun hesc => h (List.eq_of_mem_replicate hesc).symm

theorem plain_padded (width n : Nat) : Plain (Time.padded width n) := fun hesc =>
  absurd (Time.Scan.isDigit_of_mem_padded hesc) (by decide)

theorem plain_rfc3339 {zero : String} (hzero : Plain zero) (t : Time.Instant) :
    Plain (t.rfc3339 zero) := by
  have hyear (y : Int) : Plain (Time.yearText y) := by
    have hminus : Plain "-" := by decide
    have hplus : Plain "+" := by decide
    unfold Time.yearText
    split
    · exact plain_padded _ _
    · rw [plain_append]
      exact ⟨by split <;> assumption, plain_padded _ _⟩
  have hpoint (width n : Nat) : Plain ("." ++ Time.padded width n) :=
    plain_append.mpr ⟨by decide, plain_padded _ _⟩
  have hsubsecond : Plain t.subsecondText := by
    unfold Time.Instant.subsecondText
    simp only
    split_ifs
    · exact plain_empty
    all_goals exact hpoint _ _
  have hdash : Plain "-" := by decide
  have hcolon : Plain ":" := by decide
  have ht : Plain "T" := by decide
  simp only [Time.Instant.rfc3339, Time.Date.text, Time.Instant.timeText, plain_append, hyear,
    plain_padded, hsubsecond, hzero, hdash, hcolon, ht, and_self]

theorem plain_rule : Plain rule := plain_replicate (by decide) 80

theorem plain_statusText (verbose : Bool) (state : CheckState) :
    Plain (statusText ⟨false, verbose⟩ state) := by
  cases verbose <;> cases state <;> decide

theorem plain_totals (s : Summary) : Plain (totals s) := by
  have hcount (n : UInt32) : Plain (toString n) := plain_toString n.toNat
  unfold totals
  simp only [plain_append, hcount, and_true]
  decide

theorem framed_reasonText (verbose : Bool) (r : Record) :
    Framed (if r.reason.isEmpty || (r.state == .failed && !verbose) then []
      else (lines r.reason).head?.toList) (reasonText ⟨false, verbose⟩ r) := by
  unfold reasonText
  split
  · exact .plain plain_empty
  · cases lines r.reason with
    | nil => exact .plain (by decide)
    | cons line _ => exact .cons (by decide) line (.plain (by decide))

theorem framed_checkLines (verbose : Bool) (g : GroupReport) (r : Record) :
    Framed (checkTexts verbose g r) (checkLines ⟨false, verbose⟩ g r) := by
  have hlead : Plain ("  " ++ statusText ⟨false, verbose⟩ r.state ++ " ") := by
    have hspace : Plain " " := by decide
    have hspaces : Plain "  " := by decide
    simp only [plain_append, plain_statusText, hspace, hspaces, and_self]
  have hlines : Framed (if verbose then lines r.output else [])
      ("\n" ++ if verbose then
        String.join ((lines r.output).map fun line => "      " ++ line ++ "\n") else "") := by
    have hnewline : Plain "\n" := by decide
    have hindent : Plain "      " := by decide
    cases verbose with
    | false => exact .plain (plain_append.mpr ⟨hnewline, plain_empty⟩)
    | true =>
      have hline (line : String) : Framed [line] ("      " ++ line ++ "\n") :=
        .cons hindent line (.plain hnewline)
      have hall := Framed.join hline (lines r.output)
      rw [List.flatMap_singleton'] at hall
      exact (Framed.plain hnewline).append hall
  have hwhole := Framed.cons hlead g.name (Framed.cons (show Plain "/" by decide) r.testId.id
    ((framed_reasonText verbose r).append hlines))
  simpa only [checkTexts, checkLines, String.append_assoc, List.append_assoc, List.cons_append,
    List.nil_append] using hwhole

theorem framed_row {passed failed skipped error aborted : String} (hpassed : Plain passed)
    (hfailed : Plain failed) (hskipped : Plain skipped) (herror : Plain error)
    (haborted : Plain aborted) (width : Nat) (name : String) :
    Framed [name] (row width name passed failed skipped error aborted) := by
  have hspaces (n : Nat) : Plain (Text.spaces n) := plain_replicate (by decide) n
  have hgap : Plain "  " := by decide
  have hnewline : Plain "\n" := by decide
  have hcolumns : Plain (Text.spaces (width - name.length) ++ "  " ++ padLeft 6 passed ++ "  " ++
      padLeft 6 failed ++ "  " ++ padLeft 7 skipped ++ "  " ++ padLeft 5 error ++ "  " ++
      padLeft 7 aborted ++ "\n") := by
    simp only [padLeft, plain_append, hspaces, hgap, hnewline, hpassed, hfailed, hskipped, herror,
      haborted, and_self]
  simpa only [row, padRight, String.append_assoc, String.empty_append] using
    Framed.cons plain_empty name (.plain hcolumns)

theorem framed_table (groups : List GroupReport) :
    Framed (groups.map (·.name)) (table groups) := by
  have hcount (n : UInt32) : Plain (toString n) := plain_toString n.toNat
  have hgroup (g : GroupReport) := framed_row (hcount g.summary.passed) (hcount g.summary.failed)
    (hcount g.summary.skipped) (hcount g.summary.error) (hcount g.summary.aborted)
    (nameWidth groups) g.name
  have hheader : Plain (row (nameWidth groups) "GROUP" "PASSED" "FAILED" "SKIPPED" "ERROR"
      "ABORTED") := by
    refine (framed_row ?_ ?_ ?_ ?_ ?_ _ _).plain_iff.mpr (List.forall_mem_singleton.mpr ?_)
    all_goals decide
  have hwhole := (Framed.plain hheader).append (Framed.join hgroup groups)
  rwa [List.nil_append, ← List.map_eq_flatMap] at hwhole

theorem framed_logBox (verbose : Bool) (id log : String) :
    Framed (logTexts id log) (logBox ⟨false, verbose⟩ id log) := by
  have hline : Plain (String.ofList
      (List.replicate (("LOG (" ++ id ++ ")").length + 4) '-')) := plain_replicate (by decide) _
  have hnewline : Plain "\n" := by decide
  have hopen : Plain "\n| " := by decide
  have hclose : Plain " |\n" := by decide
  have hbefore : Plain "LOG (" := by decide
  have hbehind : Plain ")" := by decide
  have hlog : Framed (if log.isEmpty then [] else [trimEnd log])
      (if log.isEmpty then "Empty log output\n" else trimEnd log ++ "\n") := by
    split
    · exact .plain (by decide)
    · simpa using (Framed.self (trimEnd log)).append (.plain hnewline)
  have hfirst := plain_append.mpr ⟨plain_append.mpr ⟨hline, hopen⟩, hbefore⟩
  have hsecond := plain_append.mpr ⟨plain_append.mpr ⟨hbehind, hclose⟩,
    plain_append.mpr ⟨hline, hnewline⟩⟩
  have hwhole := Framed.cons hfirst id ((Framed.plain hsecond).append hlog)
  have htexts : logTexts id log = id :: (if log.isEmpty then [] else [trimEnd log]) := by
    unfold logTexts
    split <;> rfl
  rw [htexts]
  simpa only [logBox, colored, Bool.false_eq_true, if_false, String.append_assoc,
    List.nil_append] using hwhole

theorem framed_head (r : RunReport) : Framed [r.labelFilter] (head r) := by
  have htitle : Plain "\ncheckrun report\nLabel filter: " := by decide
  have hstarted : Plain "\nStarted: " := by decide
  have hnewline : Plain "\n" := by decide
  have hempty : Plain "\n\n" := by decide
  have htime : Plain (r.startedAt.rfc3339 "+00:00") := plain_rfc3339 (by decide) r.startedAt
  have hlast : Plain ("\nStarted: " ++ r.startedAt.rfc3339 "+00:00" ++ "\n" ++ rule ++ "\n\n") := by
    simp only [plain_append, hstarted, htime, hnewline, plain_rule, hempty, and_self]
  simpa only [head, String.append_assoc] using
    Framed.cons (plain_append.mpr ⟨plain_rule, htitle⟩) r.labelFilter (.plain hlast)

theorem framed_abortLine (reason : Option String) : Framed reason.toList (abortLine reason) := by
  have haborted : Plain "Run aborted: " := by decide
  cases reason with
  | none => exact .plain plain_empty
  | some reason => exact .cons haborted reason (.plain (by decide))

theorem framed_tail (r : RunReport) : Framed (r.abortReason.toList ++ r.errors) (tail r) := by
  have hnewline : Plain "\n" := by decide
  have htime : Plain "Total time: " := by decide
  have hseconds : Plain "s\n" := by decide
  have hlead : Plain "Error: " := by decide
  have hduration : Plain (Number.thousandths 1 r.durationMs.toNat) :=
    plain_of_legible (Junit.legible_thousandths 1 _)
  have htotals : Plain (rule ++ "\n" ++ totals r.summary ++ "Total time: " ++
      Number.thousandths 1 r.durationMs.toNat ++ "s\n") := by
    simp only [plain_append, plain_rule, hnewline, plain_totals, htime, hduration, hseconds,
      and_self]
  have herror (error : String) : Framed [error] ("Error: " ++ error ++ "\n") :=
    .cons hlead error (.plain hnewline)
  have herrors := Framed.join herror r.errors
  have hwhole := (((Framed.plain htotals).append (framed_abortLine r.abortReason)).append
    herrors).append (.plain plain_rule)
  rwa [List.flatMap_singleton', List.append_nil, List.nil_append] at hwhole

theorem framed_render (verbose : Bool) (r : RunReport) :
    Framed (shown verbose r) (render ⟨false, verbose⟩ r) := by
  have hnewline : Plain "\n" := by decide
  have hchecks := Framed.join (fun row : GroupReport × Record =>
    framed_checkLines verbose row.1 row.2) r.ordered
  have htable := ((Framed.plain hnewline).append (framed_table r.groups)).append (.plain hnewline)
  have hlogs := Framed.join (fun log : String × String =>
    framed_logBox verbose log.1 log.2) r.failedLogs
  rw [List.nil_append, List.append_nil] at htable
  rw [render_eq]
  exact ((((framed_head r).append hchecks).append htable).append hlogs).append (framed_tail r)

end Texts

section Origins

/-- The texts of a report that may be shown. -/
def texts (r : RunReport) : List String :=
  r.labelFilter :: (r.abortReason.toList ++ r.errors ++ r.groups.map (·.name) ++
    r.results.values.flatMap fun record => [record.testId.id, record.reason, record.output])

/-- The text is a part of one of the given texts. -/
def IsPart (ts : List String) (s : String) : Prop := ∃ t ∈ ts, s.toList <:+: t.toList

variable {s t : String} {ts : List String} {verbose : Bool} {r : RunReport}

theorem IsPart.of_mem (h : s ∈ ts) : IsPart ts s := ⟨s, h, List.infix_rfl⟩

theorem IsPart.of_part (h : t ∈ ts) (hpart : s.toList <:+: t.toList) : IsPart ts s :=
  ⟨t, h, hpart⟩

theorem infix_of_mem_linesFrom {read cs : List Char} (h : s ∈ linesFrom read cs) :
    s.toList <:+: read.reverse ++ cs := by
  induction cs generalizing read with
  | nil =>
    rw [linesFrom] at h
    split at h
    · cases h
    · have hs : s.toList = read.reverse ++ [] := by
        rw [List.mem_singleton.mp h, String.toList_ofList, List.append_nil]
      exact hs ▸ List.infix_rfl
  | cons c cs ih =>
    unfold linesFrom at h
    split at h
    · rename_i heq
      cases heq
    · rename_i heq
      obtain ⟨rfl, rfl⟩ := List.cons.inj heq
      rcases List.mem_cons.mp h with rfl | hrest
      · refine List.IsInfix.trans ?_ (List.prefix_append _ _).isInfix
        rw [String.toList_ofList]
        split
        · rw [List.reverse_cons]
          exact (List.prefix_append _ _).isInfix
        · exact List.infix_rfl
      · have hbehind := ih hrest
        rw [List.reverse_nil, List.nil_append] at hbehind
        exact hbehind.trans ⟨read.reverse ++ ['\n'], [], by simp⟩
    · rename_i heq
      obtain ⟨rfl, rfl⟩ := List.cons.inj heq
      simpa using ih h

theorem infix_of_mem_lines (h : s ∈ lines t) : s.toList <:+: t.toList :=
  infix_of_mem_linesFrom h

theorem infix_trimEnd (s : String) : (trimEnd s).toList <:+: s.toList := by
  rw [trimEnd, String.toList_ofList, ← List.reverse_infix, List.reverse_reverse]
  exact (List.dropWhile_suffix _).isInfix

theorem mem_texts_of_group {g : GroupReport} (h : g ∈ r.groups) : g.name ∈ texts r := by
  have hname := List.mem_map_of_mem (f := (·.name)) h
  simp only [texts, List.mem_cons, List.mem_append]
  exact .inr (.inl (.inr hname))

theorem mem_texts_of_ordered {g : GroupReport} {record : Record} (h : (g, record) ∈ r.ordered) :
    g.name ∈ texts r ∧ record.testId.id ∈ texts r ∧ record.reason ∈ texts r ∧
      record.output ∈ texts r := by
  obtain ⟨g', hg, hrow⟩ := List.mem_flatMap.mp h
  obtain ⟨id, -, hid⟩ := List.mem_filterMap.mp hrow
  obtain ⟨record', hget, heq⟩ := Option.map_eq_some_iff.mp hid
  cases heq
  have hvalue : record ∈ r.results.values :=
    List.mem_map.mpr ⟨_, Keyed.get?_eq_some.mp hget, rfl⟩
  have hshown (t : String) (ht : t ∈ [record.testId.id, record.reason, record.output]) :
      t ∈ texts r :=
    List.mem_cons_of_mem _ (List.mem_append_right _ (List.mem_flatMap.mpr ⟨record, hvalue, ht⟩))
  exact ⟨mem_texts_of_group hg, hshown _ (by simp), hshown _ (by simp), hshown _ (by simp)⟩

theorem isPart_of_checkTexts {g : GroupReport} {record : Record} (h : (g, record) ∈ r.ordered)
    (hs : s ∈ checkTexts verbose g record) : IsPart (texts r) s := by
  obtain ⟨hname, hid, hreason, houtput⟩ := mem_texts_of_ordered h
  simp only [checkTexts, List.mem_append, List.mem_cons, List.not_mem_nil, or_false] at hs
  rcases hs with ((rfl | rfl) | hs) | hs
  · exact .of_mem hname
  · exact .of_mem hid
  · split at hs
    · cases hs
    · exact .of_part hreason
        (infix_of_mem_lines (List.mem_of_head? (Option.mem_toList.mp hs)))
  · split at hs
    · exact .of_part houtput (infix_of_mem_lines hs)
    · cases hs

theorem isPart_of_logTexts {id log : String} (h : (id, log) ∈ r.failedLogs)
    (hs : s ∈ logTexts id log) : IsPart (texts r) s := by
  obtain ⟨⟨g, record⟩, hrow, heq⟩ := List.mem_map.mp h
  cases heq
  obtain ⟨-, hid, -, hlog⟩ := mem_texts_of_ordered (List.mem_of_mem_filter hrow)
  have hcases : s = record.testId.id ∨ s = trimEnd record.output := by
    unfold logTexts at hs
    split at hs
    · exact .inl (List.mem_singleton.mp hs)
    · simpa using hs
  rcases hcases with rfl | rfl
  · exact .of_mem hid
  · exact .of_part hlog (infix_trimEnd _)

theorem isPart_of_shown (h : s ∈ shown verbose r) : IsPart (texts r) s := by
  simp only [shown, List.mem_append, List.mem_singleton] at h
  rcases h with (((rfl | hs) | hs) | hs) | hs
  · exact .of_mem List.mem_cons_self
  · obtain ⟨⟨g, record⟩, hrow, hs⟩ := List.mem_flatMap.mp hs
    exact isPart_of_checkTexts hrow hs
  · obtain ⟨g, hg, rfl⟩ := List.mem_map.mp hs
    exact .of_mem (mem_texts_of_group hg)
  · obtain ⟨⟨id, log⟩, hlog, hs⟩ := List.mem_flatMap.mp hs
    exact isPart_of_logTexts hlog hs
  · refine .of_mem ?_
    simp only [texts, List.mem_cons, List.mem_append]
    exact .inr (.inl (.inl hs))

/-- A report without its colours is the same whether or not it was coloured. A report that is not
coloured is made of texts of the run and of text without escape characters around them, so that it
has none itself if the texts have none, and then it is what is left of the coloured one. -/
theorem colors_are_cosmetic (verbose : Bool) (r : RunReport) :
    removeCodes (render ⟨true, verbose⟩ r) = removeCodes (render ⟨false, verbose⟩ r) ∧
      Framed (shown verbose r) (render ⟨false, verbose⟩ r) ∧
      (∀ s ∈ shown verbose r, IsPart (texts r) s) ∧
      ((∀ t ∈ texts r, Plain t) → Plain (render ⟨false, verbose⟩ r) ∧
        removeCodes (render ⟨true, verbose⟩ r) = render ⟨false, verbose⟩ r) := by
  have hsame := (likeColored_render verbose r).removeCodes_eq
  have hframed := framed_render verbose r
  refine ⟨hsame, hframed, fun s hs => isPart_of_shown hs, fun htexts => ?_⟩
  have hshown : ∀ s ∈ shown verbose r, Plain s := fun s hs hesc => by
    obtain ⟨t, ht, hpart⟩ := isPart_of_shown hs
    exact htexts t ht (hpart.subset hesc)
  have hplain := hframed.plain_iff.mpr hshown
  exact ⟨hplain, hsame.trans hplain.removeCodes_eq⟩

/-- A report of one failed check, of which there is a log. -/
def ofFailure : RunReport where
  labelFilter := "net"
  startedAt := ⟨1483228800, 0⟩
  durationMs := 1500
  abortReason := some "enough"
  errors := ["hook broke"]
  failedChecks := 1
  groups := [⟨"wires", ["a"], ⟨0, 1, 0, 0, 0, 1⟩⟩]
  results := .ofList [("a", {
    testId := ⟨"wires-a", "wires", "net"⟩
    state := .failed
    startedAt := none
    endedAt := none
    duration := 0
    reason := "no [31m here\nnor there"
    output := "tried\r\nfailed\n"
    details := ""
    categories := ⟨none, none, none, none⟩
    info := ⟨"", "", "", ""⟩ })]

theorem colors_are_cosmetic_failure :
    Plain (render ⟨false, true⟩ ofFailure) ∧
      removeCodes (render ⟨true, true⟩ ofFailure) = render ⟨false, true⟩ ofFailure :=
  (colors_are_cosmetic true ofFailure).2.2.2 (by decide +kernel)

end Origins

end Conformance.Render.Terminal

import FileExchange.CommandLine.Send
import FileExchange.Proofs.Client.Sending
import FileExchange.Proofs.Text.Utf8
import FileExchange.Proofs.Tree.Lookup
import Mathlib.Data.List.Nodup

/-!
# Several files on one command line

What is printed about files that are named on the command line, and the code that the command ends with. Results are
kept by path, so a file that is named and sent twice leaves one result, the last one; and the question whether there is
a file under a name has no answer where the name is too long.
-/

set_option autoImplicit false

namespace FileExchange

namespace Sender

/-! ## Results by path -/

/-- The results of uploads that end one after another. -/
def gather (results attempts : Results) : Results :=
  attempts.foldl (fun results attempt => putResult attempt.1 attempt.2 results) results

variable {file : String} {result : Except Failure Nat} {results attempts : Results}

theorem putResult_of_not_mem (h : file ∉ results.map Prod.fst) :
    putResult file result results = results ++ [(file, result)] := by
  induction results with
  | nil => rfl
  | cons first rest ih =>
    obtain ⟨hne, hrest⟩ := not_or.mp (mt List.mem_cons.mpr h)
    rw [putResult, if_neg (by simpa using Ne.symm hne), ih hrest, List.cons_append]

/-- With a new path for each attempt nothing is overwritten. -/
theorem gather_of_nodup (h : ((results ++ attempts).map Prod.fst).Nodup) :
    gather results attempts = results ++ attempts := by
  induction attempts generalizing results with
  | nil => rw [List.append_nil]; rfl
  | cons attempt rest ih =>
    have hnew : attempt.1 ∉ results.map Prod.fst := by
      rw [List.map_append, List.map_cons, List.nodup_middle] at h
      exact fun hmem => (List.nodup_cons.mp h).1 (List.mem_append_left _ hmem)
    have hrest : ((results ++ [attempt] ++ rest).map Prod.fst).Nodup := by rwa [List.append_assoc]
    rw [gather, List.foldl_cons, putResult_of_not_mem hnew]
    exact (ih hrest).trans (List.append_assoc _ _ _)

section Size

variable {size : String × Except Failure Nat → Nat}

/-- A result for a path that has one already takes the place of it. -/
theorem size_putResult_of_mem (hsize : ∀ x, 0 < size x) (result : Except Failure Nat)
    (h : file ∈ results.map Prod.fst) :
    ((putResult file result results).map size).sum < (results.map size).sum + size (file, result) := by
  induction results with
  | nil => cases h
  | cons first rest ih =>
    obtain ⟨path, old⟩ := first
    rw [putResult]
    split
    · rename_i hsame
      rw [beq_iff_eq.mp hsame]
      have hold := hsize (file, old)
      simp only [List.map_cons, List.sum_cons]
      omega
    · rename_i hother
      have hmem : file ∈ rest.map Prod.fst :=
        (List.mem_cons.mp h).resolve_left fun heq => hother (beq_iff_eq.mpr heq.symm)
      have hrest := ih hmem
      simp only [List.map_cons, List.sum_cons]
      omega

theorem size_putResult_le (hsize : ∀ x, 0 < size x) (file : String) (result : Except Failure Nat)
    (results : Results) :
    ((putResult file result results).map size).sum ≤ (results.map size).sum + size (file, result) := by
  by_cases h : file ∈ results.map Prod.fst
  · exact Nat.le_of_lt (size_putResult_of_mem hsize result h)
  · refine Nat.le_of_eq ?_
    rw [putResult_of_not_mem h, List.map_append, List.sum_append, List.map_singleton, List.sum_singleton]

theorem size_gather_le (hsize : ∀ x, 0 < size x) (results attempts : Results) :
    ((gather results attempts).map size).sum ≤ (results.map size).sum + (attempts.map size).sum := by
  induction attempts generalizing results with
  | nil => exact Nat.le_add_right _ _
  | cons attempt rest ih =>
    obtain ⟨file, result⟩ := attempt
    have hput := size_putResult_le hsize file result results
    have hrest := ih (putResult file result results)
    simp only [gather, List.foldl_cons, List.map_cons, List.sum_cons] at hrest ⊢
    omega

/-- If the results take as much room as the attempts, none was overwritten. -/
theorem nodup_of_size_gather (hsize : ∀ x, 0 < size x) (hresults : (results.map Prod.fst).Nodup)
    (h : ((gather results attempts).map size).sum = (results.map size).sum + (attempts.map size).sum) :
    ((results ++ attempts).map Prod.fst).Nodup := by
  induction attempts generalizing results with
  | nil => rwa [List.append_nil]
  | cons attempt rest ih =>
    obtain ⟨file, result⟩ := attempt
    have hgather : gather results ((file, result) :: rest) = gather (putResult file result results) rest := rfl
    have hle := size_gather_le hsize (putResult file result results) rest
    rw [hgather, List.map_cons, List.sum_cons] at h
    have hnew : file ∉ results.map Prod.fst := by
      intro hmem
      have hlt := size_putResult_of_mem hsize result hmem
      omega
    rw [putResult_of_not_mem hnew] at h
    have hkeys : ((results ++ [(file, result)]).map Prod.fst).Nodup := by
      rw [List.map_append, List.map_singleton, List.nodup_append_comm]
      exact List.nodup_cons.mpr ⟨hnew, hresults⟩
    have hrest := ih hkeys (by
      rw [h, List.map_append, List.sum_append, List.map_singleton, List.sum_singleton, Nat.add_assoc])
    rwa [List.append_assoc] at hrest

end Size

end Sender

namespace CommandLine.Send

open Sender

/-! ## Verdicts -/

/-- What comes of a file argument: it cannot be sent, or it is tried. -/
inductive Verdict where
  | rejected (reason : String)
  | tried (result : Except Failure Nat)

def Verdict.succeeded : Verdict → Bool
  | tried (.ok _) => true
  | _ => false

/-- The line about an attempt: a file that was sent is called by its last name, another one as it was written. -/
def attemptLine : String × Except Failure Nat → String
  | (file, .ok n) => Shell.outcomeMessage (Path.ofString file).name (.ok n)
  | (file, .error e) => Shell.outcomeMessage file (.error e)

/-- The line about a file argument. -/
def Verdict.line (file : String) : Verdict → String
  | rejected reason => reason
  | tried result => attemptLine (file, result)

/-- File arguments with what comes of them. -/
abbrev Verdicts := List (String × Verdict)

namespace Verdicts

def lines (verdicts : Verdicts) : List String :=
  verdicts.map fun x => x.2.line x.1

def reasons : Verdicts → List String
  | [] => []
  | (_, .rejected reason) :: rest => reason :: reasons rest
  | _ :: rest => reasons rest

def attempts : Verdicts → Results
  | [] => []
  | (file, .tried result) :: rest => (file, result) :: attempts rest
  | _ :: rest => attempts rest

end Verdicts

/-- The verdicts on files that are looked at in a tree and sent, those that can be, one after another. -/
inductive Judged (c : ClientConfig) (t : Tree) : ClientWorld → Verdicts → Prop
  | nil (w : ClientWorld) : Judged c t w []
  | rejected {w : ClientWorld} {file reason : String} {rest : Verdicts}
      (hrejected : objection t (Path.ofString file) = .ok (some reason)) (hrest : Judged c t w rest) :
      Judged c t w ((file, .rejected reason) :: rest)
  | tried {w : ClientWorld} {file : String} {rest : Verdicts}
      (haccepted : objection t (Path.ofString file) = .ok none)
      (hrest : Judged c t (upload c (Path.ofString file) none w).2 rest) :
      Judged c t w ((file, .tried (upload c (Path.ofString file) none w).1) :: rest)

/-- One line for each verdict, and a code that tells whether every file was sent. -/
structure Tallies (verdicts : Verdicts) (exit : Exit) : Prop where
  lines : ∃ said complaints, exit.out = Help.lines said ∧ exit.err = Help.lines complaints ∧
    (said ++ complaints).Perm verdicts.lines
  status : exit.status = .ran (if verdicts.all (·.2.succeeded) then 0 else 1)

/-- The command ends without a failure, and accounts for each file argument. -/
def AccountsForEach (c : ClientConfig) (files : List String) (w : ClientWorld) (answer : Except Failure Exit) : Prop :=
  ∃ verdicts exit, verdicts.map Prod.fst = files ∧ Judged c w.tree w verdicts ∧ answer = .ok exit ∧
    Tallies verdicts exit

/-! ## Looking at the files -/

/-- It can be told whether there is a file: neither the path nor a name on the way is too long. -/
def Askable (t : Tree) (p : Path) : Prop :=
  t.stat p ≠ Tree.failWith .nameTooLong p

def isAccepted (t : Tree) (file : String) : Bool :=
  (objection t (Path.ofString file)).toOption == some none

variable {c : ClientConfig} {t : Tree} {w : ClientWorld} {verdicts : Verdicts} {files : List String}

theorem objection_of_askable {p : Path} (h : Askable t p) : ∃ o, objection t p = .ok o := by
  unfold objection
  cases hfile : t.isFile p with
  | error e => exact absurd (Tree.answers_stat_error hfile).1 h
  | ok found =>
    cases found with
    | false => exact ⟨_, rfl⟩
    | true => cases (Media.typeOf? p).isNone <;> exact ⟨_, rfl⟩

theorem objection_of_not_askable {p : Path} (h : ¬ Askable t p) :
    objection t p = .error (.system (.coded .nameTooLong [p.text])) := by
  have hfile : t.isFile p = .error (.system (.coded .nameTooLong [p.text])) := by
    rw [Tree.isFile, not_not.mp h]
    rfl
  rw [objection, hfile]
  rfl

theorem askable_of_objection {p : Path} (h : (objection t p).isOk = true) : Askable t p := by
  by_contra hlong
  rw [objection_of_not_askable hlong] at h
  cases h

theorem not_askable_of_long {p : Path} {name : String} {rest : List String} (hnames : p.names = name :: rest)
    (hname : Path.Descends name) (hlong : Tree.isNameTooLong name = true) (hnul : Tree.hasNul p.text = false) :
    ¬ Askable t p := by
  have hwalk : t.walk true Tree.linkLimit (t.start p) p.names = .error .nameTooLong := by
    rw [hnames]
    exact Tree.walkOn_long hname hlong
  have hlocate : t.locate true p = Tree.failWith .nameTooLong p := by
    rw [Tree.locate, hnul, hwalk]
    exact ite_self _
  rw [Askable, not_not, Tree.stat, hlocate]
  rfl

theorem exists_judged (h : ∀ file ∈ files, Askable t (Path.ofString file)) (w : ClientWorld) :
    ∃ verdicts, verdicts.map Prod.fst = files ∧ Judged c t w verdicts := by
  induction files generalizing w with
  | nil => exact ⟨[], rfl, .nil w⟩
  | cons file rest ih =>
    obtain ⟨hfile, hrest⟩ := List.forall_mem_cons.mp h
    obtain ⟨_ | reason, hobjection⟩ := objection_of_askable hfile
    · obtain ⟨verdicts, hfiles, hjudged⟩ := ih hrest (upload c (Path.ofString file) none w).2
      exact ⟨_, by rw [List.map_cons, hfiles], .tried hobjection hjudged⟩
    · obtain ⟨verdicts, hfiles, hjudged⟩ := ih hrest w
      exact ⟨_, by rw [List.map_cons, hfiles], .rejected hobjection hjudged⟩

theorem sift_of_judged (h : Judged c t w verdicts) :
    sift t (verdicts.map Prod.fst) = .ok (verdicts.attempts.map Prod.fst, verdicts.reasons) := by
  induction h with
  | nil => rfl
  | rejected hrejected hrest ih =>
    rw [List.map_cons, sift, hrejected, ih]
    rfl
  | tried haccepted hrest ih =>
    rw [List.map_cons, sift, haccepted, ih]
    rfl

theorem files_attempts (h : Judged c t w verdicts) :
    verdicts.attempts.map Prod.fst = (verdicts.map Prod.fst).filter (isAccepted t) := by
  induction h with
  | nil => rfl
  | @rejected _ file reason _ hrejected hrest ih =>
    have hout : ¬ isAccepted t file = true := by
      rw [isAccepted, hrejected]
      exact Bool.false_ne_true
    rw [List.map_cons, List.filter_cons_of_neg hout]
    exact ih
  | @tried _ file _ haccepted hrest ih =>
    have hin : isAccepted t file = true := by
      rw [isAccepted, haccepted]
      rfl
    rw [List.map_cons, List.filter_cons_of_pos hin, ← ih]
    rfl

theorem sift_of_not_askable (h : ∃ file ∈ files, ¬ Askable t (Path.ofString file)) :
    ∃ e, sift t files = .error e := by
  induction files with
  | nil =>
    obtain ⟨_, hmem, _⟩ := h
    cases hmem
  | cons file rest ih =>
    by_cases hfile : Askable t (Path.ofString file)
    · obtain ⟨other, hmem, hother⟩ := h
      have hrest : other ∈ rest := (List.mem_cons.mp hmem).resolve_left fun heq => hother (heq ▸ hfile)
      obtain ⟨e, he⟩ := ih ⟨other, hrest, hother⟩
      obtain ⟨_ | reason, hobjection⟩ := objection_of_askable hfile
      · exact ⟨e, by rw [sift, hobjection, he]; rfl⟩
      · exact ⟨e, by rw [sift, hobjection, he]; rfl⟩
    · exact ⟨_, by rw [sift, objection_of_not_askable hfile]; rfl⟩

/-! ## Sending them -/

theorem uploadAll_of_judged (h : Judged c t w verdicts) (results : Results) :
    (uploadAll c results w (verdicts.attempts.map Prod.fst)).1 = gather results verdicts.attempts := by
  induction h generalizing results with
  | nil => rfl
  | rejected hrejected hrest ih => exact ih results
  | tried haccepted hrest ih => exact ih _

/-- What is printed depends on the reasons against files and on the results that are left of the attempts. -/
theorem sendFiles_of_judged (h : Judged c w.tree w verdicts) :
    (sendFiles c (verdicts.map Prod.fst) w).1 = .ok (report verdicts.reasons (gather [] verdicts.attempts)) := by
  rw [sendFiles, run_bind, sift_of_judged h, ← uploadAll_of_judged h []]
  rfl

/-- A name that is too long ends the command with a failure, whatever the other files are. -/
theorem sendFiles_of_not_askable (h : ∃ file ∈ files, ¬ Askable w.tree (Path.ofString file)) :
    ∃ e, (sendFiles c files w).1 = .error e := by
  obtain ⟨e, he⟩ := sift_of_not_askable h
  refine ⟨e, ?_⟩
  rw [sendFiles, run_bind, he]

/-! ## What is printed -/

theorem perm_attemptLine (results : Results) :
    (successLines results ++ failureLines results).Perm (results.map attemptLine) := by
  induction results with
  | nil => exact .refl _
  | cons attempt rest ih =>
    obtain ⟨file, _ | _⟩ := attempt
    · exact List.perm_middle.trans (ih.cons _)
    · exact ih.cons _

theorem perm_lines (verdicts : Verdicts) :
    (verdicts.reasons ++ verdicts.attempts.map attemptLine).Perm verdicts.lines := by
  induction verdicts with
  | nil => exact .refl _
  | cons x rest ih =>
    obtain ⟨file, _ | _⟩ := x
    · exact ih.cons _
    · exact List.perm_middle.trans (ih.cons _)

/-- There is no complaint exactly if every file was sent. -/
theorem isEmpty_complaints (verdicts : Verdicts) :
    (verdicts.reasons ++ failureLines verdicts.attempts).isEmpty = verdicts.all (·.2.succeeded) := by
  induction verdicts with
  | nil => rfl
  | cons x rest ih =>
    obtain ⟨file, _ | _ | _⟩ := x
    · rfl
    · simp [Verdicts.reasons, Verdicts.attempts, failureLines, Verdict.succeeded]
    · exact ih

def lineSize (line : String) : Nat :=
  (Utf8.encode (line ++ "\n")).length

theorem lineSize_pos (line : String) : 0 < lineSize line := by
  have hend : Utf8.encode "\n" = [10] := by decide
  rw [lineSize, Utf8.encode_append, hend, List.length_append, List.length_singleton]
  exact Nat.succ_pos _

theorem size_lines (ls : List String) : (Utf8.encode (Help.lines ls)).length = (ls.map lineSize).sum := by
  rw [Help.lines, Utf8.encode_join, List.length_flatMap, List.map_map]
  rfl

/-- As many bytes are printed as the reasons and the results take. -/
theorem size_report (reasons : List String) (results : Results) :
    (Utf8.encode (report reasons results).out).length + (Utf8.encode (report reasons results).err).length =
      (reasons.map lineSize).sum + (results.map fun x => lineSize (attemptLine x)).sum := by
  have hlines := ((perm_attemptLine results).map lineSize).sum_nat
  rw [List.map_append, List.sum_append, List.map_map] at hlines
  rw [report, size_lines, size_lines, List.map_append, List.sum_append]
  simp only [Function.comp_def] at hlines
  omega

theorem tallies_report (h : (verdicts.attempts.map Prod.fst).Nodup) :
    Tallies verdicts (report verdicts.reasons (gather [] verdicts.attempts)) := by
  have hgather : gather [] verdicts.attempts = verdicts.attempts := gather_of_nodup h
  rw [hgather]
  have hreasonsFirst : (successLines verdicts.attempts ++ (verdicts.reasons ++ failureLines verdicts.attempts)).Perm
      (verdicts.reasons ++ (successLines verdicts.attempts ++ failureLines verdicts.attempts)) := by
    rw [← List.append_assoc, ← List.append_assoc]
    exact List.perm_append_comm.append_right _
  have hattempts := (perm_attemptLine verdicts.attempts).append_left verdicts.reasons
  refine ⟨⟨_, _, rfl, rfl, hreasonsFirst.trans (hattempts.trans (perm_lines verdicts))⟩, ?_⟩
  rw [← isEmpty_complaints]
  rfl

/-- A file that is sent twice has two verdicts and one result, so what is printed is too short. -/
theorem nodup_of_tallies (h : Tallies verdicts (report verdicts.reasons (gather [] verdicts.attempts))) :
    (verdicts.attempts.map Prod.fst).Nodup := by
  obtain ⟨said, complaints, hout, herr, hperm⟩ := h.lines
  have hprinted := size_report verdicts.reasons (gather [] verdicts.attempts)
  have hdue := ((hperm.trans (perm_lines verdicts).symm).map lineSize).sum_nat
  rw [hout, herr, size_lines, size_lines] at hprinted
  rw [List.map_append, List.sum_append, List.map_append, List.sum_append, List.map_map] at hdue
  simp only [Function.comp_def] at hdue
  have hroom : ((gather [] verdicts.attempts).map fun x => lineSize (attemptLine x)).sum =
      (([] : Results).map fun x => lineSize (attemptLine x)).sum +
        (verdicts.attempts.map fun x => lineSize (attemptLine x)).sum := by
    rw [List.map_nil, List.sum_nil]
    omega
  have hnone : (([] : Results).map Prod.fst).Nodup := List.nodup_nil
  exact nodup_of_size_gather (fun x => lineSize_pos (attemptLine x)) hnone hroom

/-! ## The command -/

variable {env : Environment} {arguments : List String} {s : Settings}

theorem readTokens_plain (d : ClientConfig) {group : Reading.Group} (hgroup : group ≠ .over) (files : List String)
    (s : Settings) :
    Reading.readTokens (command d) { settings := s, group } (files.map .plain) =
      .run { s with files := files.reverse ++ s.files } := by
  induction files generalizing s group with
  | nil => rfl
  | cons file rest ih =>
    have hadd : Reading.addPlain (command d) file { settings := s, group } =
        { settings := { s with files := file :: s.files }, group := .inside } := if_neg (by simpa using hgroup)
    rw [List.map_cons, Reading.readTokens, hadd, ih (by decide), List.reverse_cons, List.append_assoc]
    rfl

/-- Arguments that do not start with a hyphen are files. -/
theorem plan_plain {d : ClientConfig} (hd : ClientConfig.ofEnvironment env = .ok d)
    (h : ∀ file ∈ files, Text.startsWith "-" file = false) :
    plan env files = .ok (.inl { config := d, files := files.reverse }) := by
  have htokens : Token.ofArguments (command d) files = .ok (files.map .plain) := by
    induction files with
    | nil => rfl
    | cons file rest ih =>
      obtain ⟨hfile, hrest⟩ := List.forall_mem_cons.mp h
      have hplain : Token.ofArgument (command d) file = .ok (.plain file) := if_pos (by rw [hfile]; rfl)
      have hseparator : file ≠ "--" := by
        rintro rfl
        cases hfile
      rw [Token.ofArguments, hplain, ih hrest]
      · rfl
      · exact hseparator
  have hahead : Reading.Group.ahead ≠ .over := by decide
  have hread : Reading.ofArguments (command d) { config := d } files =
      .run { config := d, files := files.reverse } := by
    rw [Reading.ofArguments, htokens]
    refine (readTokens_plain d hahead files { config := d }).trans ?_
    rw [List.append_nil]
  rw [plan, hd]
  dsimp only
  rw [settingsOrExit, hread]

theorem execute_of_files (input : String) (hplan : plan env arguments = .ok (.inl s))
    (hvalid : s.config.validate = .ok ())
    (hfiles : s.files ≠ []) (w : ClientWorld) :
    execute env arguments input w = sendFiles s.config s.files.reverse w := by
  have hsome : ¬ s.files.isEmpty = true := mt List.isEmpty_iff.mp hfiles
  rw [execute, run_bind, hplan]
  dsimp only
  rw [send, hvalid]
  dsimp only
  rw [if_neg hsome]

/-- A file argument that begins with a name that is too long ends the command with a failure. -/
theorem execute_of_long_name (input : String) (hplan : plan env arguments = .ok (.inl s))
    (hvalid : s.config.validate = .ok ()) (w : ClientWorld) {file name : String} {rest : List String}
    (hfile : file ∈ s.files) (hnames : (Path.ofString file).names = name :: rest) (hname : Path.Descends name)
    (hlong : Tree.isNameTooLong name = true) (hnul : Tree.hasNul (Path.ofString file).text = false) :
    ∃ e, (execute env arguments input w).1 = .error e := by
  rw [execute_of_files input hplan hvalid (List.ne_nil_of_mem hfile)]
  exact sendFiles_of_not_askable
    ⟨file, List.mem_reverse.mpr hfile, not_askable_of_long hnames hname hlong hnul⟩

theorem askable_of_accountsForEach (h : AccountsForEach c files w (sendFiles c files w).1) :
    ∀ file ∈ files, Askable w.tree (Path.ofString file) := by
  obtain ⟨_, exit, _, _, hexit, _⟩ := h
  intro file hfile
  by_contra hlong
  obtain ⟨e, he⟩ := sendFiles_of_not_askable (c := c) ⟨file, hfile, hlong⟩
  rw [he] at hexit
  cases hexit

theorem nodup_of_accountsForEach (h : AccountsForEach c files w (sendFiles c files w).1) :
    (files.filter (isAccepted w.tree)).Nodup := by
  obtain ⟨verdicts, exit, rfl, hjudged, hexit, htallies⟩ := h
  rw [sendFiles_of_judged hjudged] at hexit
  cases hexit
  rw [← files_attempts hjudged]
  exact nodup_of_tallies htallies

theorem accountsForEach_of_nodup (haskable : ∀ file ∈ files, Askable w.tree (Path.ofString file))
    (hnodup : (files.filter (isAccepted w.tree)).Nodup) : AccountsForEach c files w (sendFiles c files w).1 := by
  obtain ⟨verdicts, rfl, hjudged⟩ := exists_judged (c := c) haskable w
  rw [← files_attempts hjudged] at hnodup
  exact ⟨verdicts, _, rfl, hjudged, sendFiles_of_judged hjudged, tallies_report hnodup⟩

/-- The command accounts for each file argument exactly if no name is too long to be looked for and no file that can be
sent is named twice. -/
theorem accountsForEach_iff (input : String) (w : ClientWorld) (hplan : plan env arguments = .ok (.inl s))
    (hvalid : s.config.validate = .ok ()) (hfiles : s.files ≠ []) :
    AccountsForEach s.config s.files.reverse w (execute env arguments input w).1 ↔
      (∀ file ∈ s.files, Askable w.tree (Path.ofString file)) ∧ (s.files.filter (isAccepted w.tree)).Nodup := by
  have hreverse : (s.files.reverse.filter (isAccepted w.tree)).Nodup ↔
      (s.files.filter (isAccepted w.tree)).Nodup := by
    rw [List.filter_reverse, List.nodup_reverse]
  rw [execute_of_files input hplan hvalid hfiles, ← hreverse]
  refine ⟨fun h => ⟨fun file hfile => ?_, nodup_of_accountsForEach h⟩, fun ⟨haskable, hnodup⟩ => ?_⟩
  · exact askable_of_accountsForEach h file (List.mem_reverse.mpr hfile)
  · exact accountsForEach_of_nodup (fun file hfile => haskable file (List.mem_reverse.mp hfile)) hnodup

/-- Two files that can be sent and one that cannot; the first connection is refused. -/
def desk : ClientWorld where
  tree :=
    { nodes := [(["a.txt"], .file 0), (["b.txt"], .file 1), (["plain"], .file 1)]
      contents := #[Utf8.encode "hello", []] }
  clock := { now := ⟨0⟩, stamp := "" }
  tokens := toString
  connectionNames := toString
  dials := [{ fault := some (.plain .connectionRefused) }]

/-- Names that cannot be sent may be repeated. -/
theorem accountsForEach_mixed :
    plan [] ["a.txt", "none", "b.txt", "plain", "none"] =
        .ok (.inl { config := {}, files := ["none", "plain", "b.txt", "none", "a.txt"] }) ∧
      ({} : ClientConfig).validate = .ok () ∧
      AccountsForEach {} ["a.txt", "none", "b.txt", "plain", "none"] desk
        (execute [] ["a.txt", "none", "b.txt", "plain", "none"] "" desk).1 := by
  have hplan : plan [] ["a.txt", "none", "b.txt", "plain", "none"] =
      .ok (.inl { config := {}, files := ["none", "plain", "b.txt", "none", "a.txt"] }) :=
    plan_plain rfl (by decide)
  have hvalid : ({} : ClientConfig).validate = .ok () := rfl
  have haskable : ∀ file ∈ ["none", "plain", "b.txt", "none", "a.txt"], Askable desk.tree (Path.ofString file) := by
    have hlooked : ∀ file ∈ ["none", "plain", "b.txt", "none", "a.txt"],
        (objection desk.tree (Path.ofString file)).isOk = true := by decide +kernel
    exact fun file hfile => askable_of_objection (hlooked file hfile)
  have hnodup : (["none", "plain", "b.txt", "none", "a.txt"].filter (isAccepted desk.tree)).Nodup := by
    decide +kernel
  exact ⟨hplan, hvalid,
    (accountsForEach_iff "" desk hplan hvalid (List.cons_ne_nil _ _)).mpr ⟨haskable, hnodup⟩⟩

/-- The first upload of a file fails and the second one does not; nothing is left of the failure. -/
theorem not_accountsForEach_repeated :
    (execute [] ["a.txt", "a.txt"] "" desk).1 =
        .ok { status := .ran 0, out := "File a.txt uploaded successfully.\n", err := "" } ∧
      ¬ AccountsForEach {} ["a.txt", "a.txt"] desk (execute [] ["a.txt", "a.txt"] "" desk).1 := by
  have hplan : plan [] ["a.txt", "a.txt"] = .ok (.inl { config := {}, files := ["a.txt", "a.txt"] }) :=
    plan_plain rfl (by decide)
  have hexecute := execute_of_files "" hplan rfl (List.cons_ne_nil _ _) desk
  have htwice : ¬ (["a.txt", "a.txt"].filter (isAccepted desk.tree)).Nodup := by decide +kernel
  refine ⟨by decide +kernel, fun h => ?_⟩
  rw [hexecute] at h
  exact htwice (nodup_of_accountsForEach h)

end CommandLine.Send

end FileExchange

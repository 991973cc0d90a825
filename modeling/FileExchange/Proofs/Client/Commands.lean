import FileExchange.Client.Shell
import FileExchange.Proofs.CommandLine.Batch
import FileExchange.Proofs.Text.Letters

/-!
# Commands line by line

Which lines end a session, which ones start an upload, and what is said about each. A session goes on from line to
line as long as it can be told whether there is a file under the name on it; a name that is too long ends it with a
failure, and the lines behind are not looked at.
-/

set_option autoImplicit false

namespace FileExchange

open CommandLine.Send (Askable objection_of_askable objection_of_not_askable not_askable_of_long)

namespace Sender

/-- There is a file, and its name tells its type. -/
def Sendable (t : Tree) (p : Path) : Prop :=
  (∃ id, t.stat p = .ok (.file id)) ∧ ∃ type, Media.typeOf? p = some type

theorem objection_eq_none_iff {t : Tree} {p : Path} : objection t p = .ok none ↔ Sendable t p := by
  have htype : (Media.typeOf? p).isNone = false ↔ ∃ type, Media.typeOf? p = some type := by
    rw [← Option.isSome_iff_exists]
    cases Media.typeOf? p <;> simp
  rw [Sendable, ← Tree.isFile_eq_true, ← htype, objection]
  cases t.isFile p with
  | error e => simp [bind, Except.bind]
  | ok found =>
    cases found with
    | false => simp [bind, Except.bind, pure, Except.pure]
    | true => cases (Media.typeOf? p).isNone <;> simp [bind, Except.bind, pure, Except.pure]

end Sender

namespace Shell

open Sender (Sendable objection_eq_none_iff run_bind)

/-! ## Lines -/

/-- A line with nothing but a word that ends the session, in any case. -/
def Quits (line : String) : Prop :=
  ∃ w, Text.Spaced line.toList [w] ∧ (Text.small w = "quit".toList ∨ Text.small w = "exit".toList)

/-- A line of two words, the verb in any case and a name. -/
def Uploads (line name : String) : Prop :=
  ∃ v, Text.Spaced line.toList [v, name.toList] ∧ Text.small v = verb.toList

/-- Where a name leads that is written on a line. -/
def target (base : Path) (name : String) : Path :=
  base.join (Path.ofString name)

/-- The answer that tells how an upload went. -/
def uploadAnswer (c : ClientConfig) (w : ClientWorld) (p : Path) : Answer where
  started := true
  message := some (outcomeMessage p.name (Sender.upload c p none w).1)

/-- What the answer to a line must be: a blank line gets none and any other gets one message, and an upload is started
exactly where the line names a file that can be sent. -/
structure Answers (c : ClientConfig) (base : Path) (w : ClientWorld) (line : String) (a : Answer) (w' : ClientWorld) :
    Prop where
  said : a.message = none ↔ Text.Spaced line.toList []
  started : a.started = true ↔ ∃ name, Uploads line name ∧ Sendable w.tree (target base name)
  sent : ∀ name, Uploads line name → Sendable w.tree (target base name) →
    a = uploadAnswer c w (target base name) ∧ w' = (Sender.upload c (target base name) none w).2
  unsent : a.started = false → w' = w

/-- Lines that are answered one after another, none of which ends the session. -/
inductive Answered (c : ClientConfig) (base : Path) : ClientWorld → List String → List Answer →
    ClientWorld → Prop
  | nil (w : ClientWorld) : Answered c base w [] [] w
  | cons {w w' w'' : ClientWorld} {line : String} {rest : List String} {a : Answer} {answers : List Answer}
      (hgo : ¬ Quits line) (hanswer : Answers c base w line a w') (hrest : Answered c base w' rest answers w'') :
      Answered c base w (line :: rest) (a :: answers) w''

/-- All lines up to one that ends the session are answered in their order, and nothing else is printed. -/
def Survives (c : ClientConfig) (base : Path) (input : String) (w : ClientWorld) : Prop :=
  ∃ before after answers w', Text.splitText '\n' input = before ++ after ∧
    (∀ line, after.head? = some line → Quits line) ∧ Answered c base w before answers w' ∧
    run c base input w = (.ok (String.join (answers.map printed)), w')

/-- The session gets to a line with this world, if all lines in front are answered. -/
inductive Reaches (c : ClientConfig) (base : Path) : ClientWorld → List String → ClientWorld → String → Prop
  | here {w : ClientWorld} {line : String} (rest : List String) (hgo : ¬ Quits line) :
      Reaches c base w (line :: rest) w line
  | later {w w' w'' : ClientWorld} {line line' : String} {rest : List String} {a : Answer} (hgo : ¬ Quits line)
      (hanswer : Answers c base w line a w') (hrest : Reaches c base w' rest w'' line') :
      Reaches c base w (line :: rest) w'' line'

variable {c : ClientConfig} {base : Path} {w w' : ClientWorld} {line name : String} {lines : List String} {a : Answer}

/-! ## Reading a line -/

theorem lower_beq_iff {word : String} (hk : 'k' ∉ word.toList) (hsign : '\u212A' ∉ word.toList) (s : List Char) :
    (String.ofList (Text.lower s) == word) = true ↔ Text.small s = word.toList := by
  rw [beq_iff_eq, ← Text.lower_eq_iff hk hsign, ← String.toList_inj, String.toList_ofList]

/-- Trimming leaves a word of these letters exactly if it is the only one on the line. -/
theorem small_trim_iff {word : List Char} (hword : Text.IsWord word) :
    Text.small (Text.trim line.toList) = word ↔ ∃ w, Text.Spaced line.toList [w] ∧ Text.small w = word := by
  refine ⟨fun h => ⟨_, ?_, h⟩, fun ⟨w, hline, hw⟩ => ?_⟩
  · exact (Text.trim_eq_iff (Text.isWord_of_small hword h)).mp rfl
  · rw [(Text.trim_eq_iff (Text.isWord_of_small hword hw)).mpr hline, hw]

theorem isQuit_iff : isQuit line = true ↔ Quits line := by
  have hquit : Text.IsWord "quit".toList := ⟨by decide, by simp [Text.isBlank]⟩
  have hexit : Text.IsWord "exit".toList := ⟨by decide, by simp [Text.isBlank]⟩
  rw [isQuit, Bool.or_eq_true, lower_beq_iff (by decide) (by decide), lower_beq_iff (by decide) (by decide),
    small_trim_iff hquit, small_trim_iff hexit, ← exists_or]
  simp only [Quits, and_or_left]

theorem verb_iff (v : List Char) : (String.ofList (Text.lower v) == verb) = true ↔ Text.small v = verb.toList :=
  lower_beq_iff (by decide) (by decide) v

theorem ofLine_of_uploads (h : Uploads line name) : Command.ofLine line = .upload name := by
  obtain ⟨v, hwords, hv⟩ := h
  rw [Command.ofLine, hwords.words_eq]
  dsimp only
  rw [if_pos ((verb_iff v).mpr hv), String.ofList_toList]

theorem ofLine_of_blank (h : Text.Spaced line.toList []) : Command.ofLine line = .blank := by
  rw [Command.ofLine, h.words_eq]

theorem ofLine_of_other (hsome : ¬ Text.Spaced line.toList []) (h : ¬ ∃ name, Uploads line name) :
    ∃ text, Command.ofLine line = .invalid text := by
  unfold Command.ofLine
  split
  · rename_i hwords
    exact absurd (Text.words_eq_iff.mp hwords) hsome
  · rename_i v word hwords
    have hspaced : Text.Spaced line.toList [v, (String.ofList word).toList] := by
      rw [String.toList_ofList]
      exact Text.words_eq_iff.mp hwords
    rw [if_neg fun hv => h ⟨_, v, hspaced, (verb_iff v).mp hv⟩]
    exact ⟨_, rfl⟩
  · exact ⟨_, rfl⟩

theorem Uploads.name_eq {name' : String} (h : Uploads line name) (h' : Uploads line name') : name = name' :=
  Command.upload.inj ((ofLine_of_uploads h).symm.trans (ofLine_of_uploads h'))

theorem Uploads.not_quits (h : Uploads line name) : ¬ Quits line := by
  obtain ⟨v, hwords, _⟩ := h
  rintro ⟨w, hone, _⟩
  cases hwords.words_eq.symm.trans hone.words_eq

theorem Uploads.not_blank (h : Uploads line name) : ¬ Text.Spaced line.toList [] := by
  obtain ⟨v, hwords, _⟩ := h
  intro hblank
  cases hwords.words_eq.symm.trans hblank.words_eq

/-! ## Answering a line -/

/-- After an answer there is one world only. -/
theorem Answers.world_eq {a' : Answer} {w₁ w₂ : ClientWorld} (h₁ : Answers c base w line a w₁)
    (h₂ : Answers c base w line a' w₂) : w₁ = w₂ := by
  by_cases h : ∃ name, Uploads line name ∧ Sendable w.tree (target base name)
  · obtain ⟨name, hline, hfile⟩ := h
    rw [(h₁.sent name hline hfile).2, (h₂.sent name hline hfile).2]
  · rw [h₁.unsent (eq_false_of_ne_true (mt h₁.started.mp h)),
      h₂.unsent (eq_false_of_ne_true (mt h₂.started.mp h))]

theorem handle_of_uploads (h : Uploads line name) : handle c base line = sendFile c (target base name) := by
  rw [handle, ofLine_of_uploads h]
  rfl

/-- A line that starts no upload leaves the world as it is. -/
theorem answers_unstarted {message : Option String} (hmessage : message = none ↔ Text.Spaced line.toList [])
    (h : ∀ name, Uploads line name → ¬ Sendable w.tree (target base name)) :
    Answers c base w line ⟨false, message⟩ w where
  said := hmessage
  started := iff_of_false Bool.false_ne_true fun ⟨name, hline, hfile⟩ => h name hline hfile
  sent name hline hfile := absurd hfile (h name hline)
  unsent _ := rfl

theorem answers_started (hline : Uploads line name) (hfile : Sendable w.tree (target base name)) :
    Answers c base w line (uploadAnswer c w (target base name)) (Sender.upload c (target base name) none w).2 where
  said := iff_of_false (Option.some_ne_none _) hline.not_blank
  started := iff_of_true rfl ⟨name, hline, hfile⟩
  sent name' hline' _ := by
    rw [hline'.name_eq hline]
    exact ⟨rfl, rfl⟩
  unsent hnot := absurd hnot (Bool.noConfusion)

theorem handle_of_sendable (hline : Uploads line name) (hfile : Sendable w.tree (target base name)) :
    handle c base line w =
      (.ok (uploadAnswer c w (target base name)), (Sender.upload c (target base name) none w).2) := by
  rw [handle_of_uploads hline, sendFile, run_bind, objection_eq_none_iff.mpr hfile]
  rfl

theorem handle_of_reason {reason : String} (hline : Uploads line name)
    (h : Sender.objection w.tree (target base name) = .ok (some reason)) :
    handle c base line w = (.ok ⟨false, some reason⟩, w) := by
  rw [handle_of_uploads hline, sendFile, run_bind, h]
  rfl

theorem handle_of_not_askable (hline : Uploads line name) (h : ¬ Askable w.tree (target base name)) :
    (handle c base line w).1 = .error (.system (.coded .nameTooLong [(target base name).text])) := by
  rw [handle_of_uploads hline, sendFile, run_bind, objection_of_not_askable h]

theorem handle_of_blank (h : Text.Spaced line.toList []) (c : ClientConfig) (base : Path) (w : ClientWorld) :
    handle c base line w = (.ok ⟨false, none⟩, w) := by
  rw [handle, ofLine_of_blank h]
  rfl

theorem handle_of_other (hsome : ¬ Text.Spaced line.toList []) (h : ¬ ∃ name, Uploads line name) (c : ClientConfig)
    (base : Path) (w : ClientWorld) : ∃ message, handle c base line w = (.ok ⟨false, some message⟩, w) := by
  obtain ⟨text, htext⟩ := ofLine_of_other hsome h
  rw [handle, htext]
  exact ⟨_, rfl⟩

/-- Every line is answered unless there is a name on it that is too long to be asked for. -/
theorem exists_answers (h : ∀ name, Uploads line name → Askable w.tree (target base name)) :
    ∃ a w', handle c base line w = (.ok a, w') ∧ Answers c base w line a w' := by
  by_cases hblank : Text.Spaced line.toList []
  · exact ⟨_, w, handle_of_blank hblank c base w,
      answers_unstarted (iff_of_true rfl hblank) fun name hline => absurd hblank hline.not_blank⟩
  · have hsaid : ∀ message : String, some message = none ↔ Text.Spaced line.toList [] := fun message =>
      iff_of_false (Option.some_ne_none message) hblank
    by_cases hupload : ∃ name, Uploads line name
    · obtain ⟨name, hline⟩ := hupload
      obtain ⟨_ | reason, hobjection⟩ := objection_of_askable (h name hline)
      · have hfile := objection_eq_none_iff.mp hobjection
        exact ⟨_, _, handle_of_sendable hline hfile, answers_started hline hfile⟩
      · refine ⟨_, w, handle_of_reason hline hobjection,
          answers_unstarted (hsaid reason) fun name' hline' hfile => ?_⟩
        rw [hline'.name_eq hline, ← objection_eq_none_iff, hobjection] at hfile
        cases hfile
    · obtain ⟨message, hhandle⟩ := handle_of_other hblank hupload c base w
      exact ⟨_, w, hhandle, answers_unstarted (hsaid message) fun name hline => absurd ⟨name, hline⟩ hupload⟩

/-! ## Line after line -/

theorem runLines_of_quits (h : Quits line) (rest : List String) (w : ClientWorld) :
    runLines c base (line :: rest) w = (.ok "", w) := by
  rw [runLines, if_pos (isQuit_iff.mpr h)]
  rfl

theorem runLines_of_answer (hgo : ¬ Quits line) (h : handle c base line w = (.ok a, w')) (rest : List String) :
    runLines c base (line :: rest) w =
      ((runLines c base rest w').1.map (printed a ++ ·), (runLines c base rest w').2) := by
  rw [runLines, if_neg (mt isQuit_iff.mp hgo), run_bind, h]
  dsimp only
  rw [run_bind]
  rcases runLines c base rest w' with ⟨_ | _, _⟩ <;> rfl

theorem runLines_of_error {e : Failure} (hgo : ¬ Quits line) (h : (handle c base line w).1 = .error e)
    (rest : List String) : (runLines c base (line :: rest) w).1 = .error e := by
  rw [runLines, if_neg (mt isQuit_iff.mp hgo), run_bind]
  generalize handle c base line w = answer at h
  obtain ⟨_, _⟩ := answer
  cases h
  rfl

/-- A line without any character is answered with nothing, as if it were not there. -/
theorem runLines_empty (rest : List String) : runLines c base ("" :: rest) = runLines c base rest := by
  have hgo : ¬ Quits "" := mt isQuit_iff.mpr (by decide)
  funext w
  rw [runLines_of_answer hgo (handle_of_blank (.blank rfl) c base w)]
  rcases runLines c base rest w with ⟨_ | out, w'⟩
  · rfl
  · exact congrArg (fun said => (Except.ok said, w')) String.empty_append

theorem runLines_filter (lines : List String) :
    runLines c base (lines.filter (· != "")) = runLines c base lines := by
  induction lines with
  | nil => rfl
  | cons line rest ih =>
    by_cases hempty : line = ""
    · rw [List.filter_cons_of_neg (by simpa using hempty), ih, hempty, runLines_empty]
    · rw [List.filter_cons_of_pos (by simpa using hempty), runLines, runLines, ih]

theorem runLines_of_long_name (h : Reaches c base w lines w' line) (hline : Uploads line name)
    (hlong : ¬ Askable w'.tree (target base name)) : ∃ e, (runLines c base lines w).1 = .error e := by
  induction h with
  | here rest hgo =>
    exact ⟨_, runLines_of_error hgo (handle_of_not_askable hline hlong) rest⟩
  | @later w w₁ w₂ first last rest a hgo hanswer hrest ih =>
    -- The line in front may fail as well; then the session ends there.
    by_cases hfirst : ∀ name, Uploads first name → Askable w.tree (target base name)
    · obtain ⟨a', w₁', hhandle, hanswer'⟩ := exists_answers (c := c) hfirst
      obtain ⟨e, he⟩ := ih hline hlong
      refine ⟨e, ?_⟩
      rw [runLines_of_answer hgo hhandle, hanswer'.world_eq hanswer, he]
      rfl
    · simp only [not_forall] at hfirst
      obtain ⟨name', hline', hlong'⟩ := hfirst
      exact ⟨_, runLines_of_error hgo (handle_of_not_askable hline' hlong') _⟩

theorem exists_answered (h : ∀ w' line name, Reaches c base w lines w' line → Uploads line name →
      Askable w'.tree (target base name)) :
    ∃ before after answers w', lines = before ++ after ∧ (∀ line, after.head? = some line → Quits line) ∧
      Answered c base w before answers w' ∧
      runLines c base lines w = (.ok (String.join (answers.map printed)), w') := by
  induction lines generalizing w with
  | nil => exact ⟨[], [], [], w, rfl, by simp, .nil w, rfl⟩
  | cons line rest ih =>
    by_cases hquit : Quits line
    · refine ⟨[], line :: rest, [], w, rfl, fun other hhead => ?_, .nil w, runLines_of_quits hquit rest w⟩
      cases hhead
      exact hquit
    · obtain ⟨a, w₁, hhandle, hanswer⟩ :=
        exists_answers (c := c) fun name hline => h w line name (.here rest hquit) hline
      obtain ⟨before, after, answers, w', hlines, hafter, hanswered, hrun⟩ :=
        ih fun w' line' name hreach => h w' line' name (.later hquit hanswer hreach)
      refine ⟨line :: before, after, a :: answers, w', by rw [hlines, List.cons_append], hafter,
        .cons hquit hanswer hanswered, ?_⟩
      rw [runLines_of_answer hquit hhandle, hrun, List.map_cons, String.join_cons]
      rfl

/-- A session answers all its lines exactly if it never gets to the name of a file that is too long to be asked for. -/
theorem survives_iff (c : ClientConfig) (base : Path) (input : String) (w : ClientWorld) :
    Survives c base input w ↔ ∀ w' line name, Reaches c base w (Text.splitText '\n' input) w' line →
      Uploads line name → Askable w'.tree (target base name) := by
  have hrun : run c base input w = runLines c base (Text.splitText '\n' input) w := congrFun (runLines_filter _) w
  refine ⟨fun h w' line name hreach hline => ?_, fun h => ?_⟩
  · obtain ⟨before, after, answers, w₁, _, _, _, hok⟩ := h
    by_contra hlong
    obtain ⟨e, he⟩ := runLines_of_long_name hreach hline hlong
    rw [← hrun, hok] at he
    cases he
  · rw [Survives, hrun]
    exact exists_answered h

/-! ## A name that is too long -/

theorem uploads_of_isWord (hname : Text.IsWord name.toList) : Uploads ("upload " ++ name) name := by
  have hspace : ∀ c, (' ' :: name.toList).head? = some c → Text.isBlank c = true := by
    rintro c ⟨⟩
    rfl
  have hlast : Text.Spaced ([' '] ++ (name.toList ++ [])) [name.toList] :=
    .word rfl hname (fun c hc => nomatch hc) (.blank rfl)
  rw [List.append_nil] at hlast
  have hverb : Text.IsWord verb.toList := ⟨by decide, by simp [verb, Text.isBlank]⟩
  have hline : Text.Spaced ([] ++ (verb.toList ++ (' ' :: name.toList))) [verb.toList, name.toList] :=
    .word rfl hverb hspace hlast
  refine ⟨verb.toList, ?_, by decide⟩
  rw [String.toList_append]
  exact hline

/-- A name without a slash is looked for where the session runs. -/
theorem target_of_isName (hname : Path.IsName name) : target (Path.ofString ".") name = ⟨.relative, [name]⟩ := by
  rw [target, Path.ofString_of_isName hname]
  rfl

theorem text_of_name (name : String) : (Path.mk .relative [name]).text = name := by
  rw [Path.text_of_ne_nil (List.cons_ne_nil _ _)]
  exact String.empty_append

/-- A name that is too long for a directory ends the session, whatever the tree and the lines behind are. -/
theorem run_of_long_name (hname : Path.IsPlain name) (hword : Text.IsWord name.toList) (hnul : '\x00' ∉ name.toList)
    (hlong : Tree.isNameTooLong name = true) (c : ClientConfig) (rest : String) (w : ClientWorld) :
    (run c (Path.ofString ".") ("upload " ++ name ++ (String.singleton '\n' ++ rest)) w).1 =
      .error (.system (.coded .nameTooLong [name])) := by
  have hline := uploads_of_isWord hword
  have hfeed : '\n' ∉ ("upload " ++ name).toList := by
    rw [String.toList_append]
    refine List.not_mem_append (by decide) fun hmem => ?_
    cases hword.solid _ hmem
  have hlines : Text.splitText '\n' ("upload " ++ name ++ (String.singleton '\n' ++ rest)) =
      ("upload " ++ name) :: Text.splitText '\n' rest := by
    rw [Text.splitText_append, Text.splitText_of_notMem hfeed]
    rfl
  have hnul' : Tree.hasNul (Path.mk .relative [name]).text = false := by
    rw [text_of_name, Tree.hasNul]
    simpa using hnul
  have hfile : ¬ Askable w.tree (target (Path.ofString ".") name) := by
    rw [target_of_isName hname.1]
    exact not_askable_of_long rfl hname.descends hlong hnul'
  rw [run, linesOf, runLines_filter, hlines]
  have herror := runLines_of_error hline.not_quits (handle_of_not_askable (c := c) hline hfile)
    (Text.splitText '\n' rest)
  rwa [target_of_isName hname.1, text_of_name] at herror

def letters (n : Nat) : String :=
  String.ofList (List.replicate n 'a')

theorem utf8ByteSize_letters (n : Nat) : (letters n).utf8ByteSize = n := by
  induction n with
  | zero => rfl
  | succ n ih =>
    have hfirst : letters (n + 1) = "a" ++ letters n := by
      rw [← String.toList_inj, String.toList_append, letters, letters]
      simp only [String.toList_ofList]
      exact List.replicate_succ
    have hone : ("a" : String).utf8ByteSize = 1 := rfl
    rw [hfirst, String.utf8ByteSize_append, ih, hone, Nat.add_comm]

theorem letters_ne {n : Nat} {word : String} (h : word.utf8ByteSize < n) : letters n ≠ word := by
  rintro rfl
  rw [utf8ByteSize_letters] at h
  exact Nat.lt_irrefl n h

theorem eq_of_mem_letters {n : Nat} {d : Char} (h : d ∈ (letters n).toList) : d = 'a' := by
  rw [letters, String.toList_ofList] at h
  exact List.eq_of_mem_replicate h

theorem isPlain_letters {n : Nat} (hn : 2 < n) : Path.IsPlain (letters n) := by
  have hsome : letters n ≠ "" := letters_ne (Nat.zero_lt_of_lt hn)
  have hdot : letters n ≠ "." := letters_ne (Nat.lt_of_succ_lt hn)
  have hslash : '/' ∉ (letters n).toList := fun h => absurd (eq_of_mem_letters h) (by decide)
  exact ⟨⟨hsome, hdot, hslash⟩, letters_ne hn⟩

theorem isWord_letters {n : Nat} (hn : 0 < n) : Text.IsWord (letters n).toList := by
  have hsome : letters n ≠ "" := letters_ne hn
  refine ⟨fun hnil => hsome (String.toList_inj.mp hnil), fun d hd => ?_⟩
  rw [eq_of_mem_letters hd]
  rfl

/-- The line behind a name that is too long is not looked at. -/
theorem not_survives_long_name :
    (run {} (Path.ofString ".") ("upload " ++ letters 256 ++ "\nupload a.txt\n") CommandLine.Send.desk).1 =
        .error (.system (.coded .nameTooLong [letters 256])) ∧
      ¬ Survives {} (Path.ofString ".") ("upload " ++ letters 256 ++ "\nupload a.txt\n") CommandLine.Send.desk := by
  have hnul : '\x00' ∉ (letters 256).toList := fun h => absurd (eq_of_mem_letters h) (by decide)
  have hlong : Tree.isNameTooLong (letters 256) = true := by
    rw [Tree.isNameTooLong, utf8ByteSize_letters]
    rfl
  have hname : Path.IsPlain (letters 256) := isPlain_letters (by decide)
  have hword : Text.IsWord (letters 256).toList := isWord_letters (by decide)
  have hrun := run_of_long_name hname hword hnul hlong {} "upload a.txt\n" CommandLine.Send.desk
  refine ⟨hrun, fun ⟨_, _, _, _, _, _, _, hok⟩ => ?_⟩
  have herror := (congrArg Prod.fst hok).symm.trans hrun
  cases herror

end Shell

end FileExchange

/-
The marks of a session. At every question they are keys of the result, each once, so a deletion announces as many files
as there are marks. The deletion is given the files of the marked actions and no others; it was announced and then
confirmed, and from the announcement on until then nothing but the terminal has changed.
-/
import ActionSweep.Proofs.Sample
import ActionSweep.Proofs.Session.Answers
import ActionSweep.Proofs.Session.Prompts
import ActionSweep.Proofs.Session.Sound

namespace ActionSweep

open Outcome (left)

namespace Session

variable {s : Session}

/-! ## Announcements -/

/-- With the announcement of the deletion of its marked actions on the terminal. -/
def announcing (s : Session) : Session :=
  { s with console := s.console.say ((Style.boldOf .red).apply
      ("\nAbout to delete " ++ Text.ofNat s.marked.length ++ " server actions:")) }

/-- What a session has become when nothing was done since but to write more on the terminal. -/
structure OnlyWrote (s after : Session) : Prop where
  output : s.console.output <:+ after.console.output
  marked : after.marked = s.marked
  result : after.result = s.result
  disk : after.disk = s.disk

theorem OnlyWrote.refl (s : Session) : s.OnlyWrote s := ⟨List.suffix_rfl, rfl, rfl, rfl⟩

theorem OnlyWrote.trans {t u : Session} (h : s.OnlyWrote t) (h' : t.OnlyWrote u) : s.OnlyWrote u :=
  ⟨h.output.trans h'.output, h'.marked.trans h.marked, h'.result.trans h.result, h'.disk.trans h.disk⟩

theorem onlyWrote_typed (s : Session) (screen : Screen) (line : Text) : s.OnlyWrote ((s.asked screen).typed line) :=
  ⟨(List.suffix_cons ..).trans (List.suffix_cons ..), rfl, rfl, rfl⟩

end Session

namespace Dialog

open Session (Sound OnlyWrote)

/-! ## From the announcement to the deletion -/

/-- The announcement of a deletion says how many marks there are, before anything else is done. -/
theorem announceDeletion_says {s : Session} (hs : s.Sound) (hmarks : s.marked ≠ []) (origin : Origin) :
    s.announcing.OnlyWrote (left (announceDeletion origin s)) := by
  have hquiet : Quiet s.announcing.OnlyWrote := fun _ _ h hmore => ⟨h.output.trans hmore, h.marked, h.result, h.disk⟩
  have hmarked : s.marked.isEmpty = false := by rwa [← Bool.not_eq_true, List.isEmpty_iff]
  have hall : announceDeletion origin s = askDeletion s origin s.announcing := by
    show (if s.marked.isEmpty = true then _ else _ : Dialog Next) s = _
    rw [if_neg (by rw [hmarked]; decide), hs.length_targetFiles]
    rfl
  rw [hall]
  exact keeps_left (askDeletion_keeps hquiet s origin (fun _ _ => True.intro) fun _ => True.intro) (.refl _)

/-- A question about copies of the files that are to be deleted. -/
inductive Copying (origin : Origin) : Screen → Prop
  | backup : Copying origin (.confirmBackup origin)
  | folder : Copying origin (.backupFolder origin)

/-- A question between the announcement of a deletion and the deletion. -/
def Deciding (origin : Origin) (screen : Screen) : Prop := screen = .confirmDeletion origin ∨ Copying origin screen

/-- Not a question about a deletion that was announced. -/
def Aside (next : Next) : Prop := ∀ origin screen, Deciding origin screen → next ≠ .ask screen

theorem Plain.aside {next : Next} (h : Plain next) : Aside next := by
  rintro origin screen (rfl | hcopying) rfl
  · cases h
  · cases hcopying <;> cases h

theorem Confirming.aside {next : Next} (h : Confirming next) (hno : ∀ origin, next ≠ .ask (.confirmDeletion origin)) :
    Aside next := by
  rintro origin screen (rfl | hcopying) rfl
  · exact hno origin rfl
  · cases hcopying <;> cases h

section Leading

variable {line : Text} {screen asked : Screen} {origin : Origin} {s s' : Session}

theorem keeps_any {α : Type} (x : Dialog α) : Keeps (fun _ => True) (fun _ => True) x := by
  intro s _
  cases x s <;> trivial

theorem quiet_any : Quiet fun _ => True := fun _ _ _ _ => .intro

theorem stable_any : Stable fun _ => True where
  quiet := quiet_any
  filters _ _ _ := .intro
  marks _ _ _ _ := keeps_any _
  unmarks _ _ _ := .intro
  ignores _ _ := keeps_any _
  ignoresRoutes _ _ := keeps_any _

theorem Keeps.aside {x : Dialog Next} (h : Keeps (fun _ => True) Plain x) : Keeps (fun _ => True) Aside x :=
  h.mono fun _ => Plain.aside

theorem Keeps.not_deciding {x : Dialog Next} (h : Keeps (fun _ => True) Aside x) (hasked : Deciding origin asked) :
    x s ≠ .ok (.ask asked) s' := fun hx => (h.ok .intro hx).1 origin asked hasked rfl

theorem deleteMarked_aside (origin : Origin) (backup : Option Text) :
    Keeps (fun _ => True) Aside (deleteMarked origin backup) := by
  have hoffer : ∀ deleted, Keeps (fun _ => True) Aside (offerCleanup origin deleted) := by
    intro deleted
    refine (keeps_any _).bind fun folders _ => ?_
    split
    · exact (keeps_any _).bind fun _ _ => (back_keeps quiet_any origin).aside
    · refine (keeps_any _).bind fun _ _ => (keeps_any _).bind fun _ _ => keeps_pure ?_
      exact (Confirming.cleanup ..).aside (by rintro _ ⟨⟩)
  exact (keeps_any _).bind fun s _ => (keeps_any _).bind fun report _ => (keeps_any _).bind fun _ _ =>
    (keeps_any _).bind fun _ _ => hoffer _

/-- A choice in the main menu announces a deletion, or leads to none. -/
theorem choose_cases (entry : MenuEntry) :
    choose entry = announceDeletion .mainMenu ∨ Keeps (fun _ => True) Aside (choose entry) := by
  cases entry with
  | actions => exact .inr (actionList_keeps quiet_any).aside
  | routes => exact .inr (checkRoutes_keeps quiet_any).aside
  | folders =>
    exact .inr (folderList_keeps quiet_any (fun _ => Plain.aside) fun _ folders _ _ =>
      (Confirming.folders folders).aside (by rintro _ ⟨⟩))
  | ignored => exact .inr (ignoredActionList_keeps quiet_any).aside
  | saving => exact .inr (keeps_pure Plain.resultFile.aside)
  | deletion => exact .inl rfl
  | leaving => exact .inr ((keeps_any _).bind fun _ _ => keeps_pure Plain.leave.aside)

theorem withOption_cases {α : Type} (screen : Screen) (options : List (α × Text)) (line : Text) (go : α → Dialog Next) :
    (∃ a, withOption screen options line go = go a) ∨
      Keeps (fun _ => True) (· = .ask screen) (withOption screen options line go) := by
  unfold withOption withNumber
  split
  · exact .inr (keeps_pure rfl)
  · split
    · exact .inr ((keeps_any _).bind fun _ _ => keeps_pure rfl)
    · split
      · dsimp only
        split
        · exact .inl ⟨_, rfl⟩
        · exact .inr (keeps_pure rfl)
      · exact .inr ((keeps_any _).bind fun _ _ => keeps_pure rfl)

/-- The announcement of a deletion is followed by the question whether to go on, if there are marks. -/
theorem announceDeletion_asks {announced : Origin} (h : announceDeletion announced s = .ok (.ask asked) s')
    (hasked : Deciding origin asked) : asked = .confirmDeletion origin ∧ announced = origin ∧ s.marked ≠ [] := by
  change (if s.marked.isEmpty = true then _ else _ : Dialog Next) s = _ at h
  split at h
  · exact absurd h (((keeps_any _).bind fun _ _ => (back_keeps quiet_any announced).aside).not_deciding hasked)
  · rename_i hmarks
    have hposts : Keeps (fun _ => True) (fun next => Aside next ∨ next = .ask (.confirmDeletion announced))
        (do
          sayIn (.boldOf .red) ("\nAbout to delete " ++ Text.ofNat s.targetFiles.length ++ " server actions:")
          askDeletion s announced) :=
      (keeps_any _).bind fun _ _ => askDeletion_keeps quiet_any s announced (fun _ h => .inl h.aside) fun _ => .inr rfl
    obtain haside | he := (hposts.ok .intro h).1
    · exact absurd rfl (haside origin asked hasked)
    · cases he
      obtain he | hcopying := hasked
      · cases he
        exact ⟨rfl, rfl, fun hnil => hmarks (List.isEmpty_iff.2 hnil)⟩
      · cases hcopying

/-- How one question about a deletion follows another: it is asked again, or the answer is yes. -/
inductive Onto (line : Text) (origin : Origin) : Screen → Screen → Prop
  | again {screen : Screen} : Onto line origin screen screen
  | backup (hyes : yesNo? false line = some true) : Onto line origin (.confirmDeletion origin) (.confirmBackup origin)
  | folder : Onto line origin (.confirmBackup origin) (.backupFolder origin)

theorem Onto.deciding (h : Onto line origin screen asked) (hasked : Deciding origin asked) : Deciding origin screen := by
  cases h with
  | again => exact hasked
  | backup => exact .inl rfl
  | folder => exact .inr .backup

/-- A question to be answered with yes or no is asked again without anything done, or comes to what its answer is. -/
theorem withYesNo_asks {standard : Bool} {go : Bool → Dialog Next} (h : withYesNo screen standard line go s = .ok (.ask asked) s') :
    (asked = screen ∧ s.OnlyWrote s') ∨ ∃ yes, yesNo? standard line = some yes ∧ go yes s = .ok (.ask asked) s' := by
  rw [withYesNo_eq] at h
  split at h
  · exact .inr ⟨_, ‹_›, h⟩
  · cases h
    exact .inl ⟨rfl, List.suffix_cons .., rfl, rfl, rfl⟩

theorem confirmDeletion_asks {asking : Origin} (h : answer line (.confirmDeletion asking) s = .ok (.ask asked) s')
    (hasked : Deciding origin asked) : Onto line origin (.confirmDeletion asking) asked ∧ s.OnlyWrote s' := by
  obtain ⟨rfl, hwrote⟩ | ⟨yes, hyes, h⟩ := withYesNo_asks h
  · exact ⟨.again, hwrote⟩
  cases yes with
  | false => exact absurd h (((keeps_any _).bind fun _ _ => (back_keeps quiet_any asking).aside).not_deciding hasked)
  | true =>
    rw [confirmDeletion_yes] at h
    split at h
    · cases h
    · split at h
      · exact absurd h ((deleteMarked_aside asking _).not_deciding hasked)
      · cases h
        obtain he | hcopying := hasked
        · cases he
        · cases hcopying
          exact ⟨.backup hyes, .refl s⟩

theorem confirmBackup_asks {asking : Origin} (h : answer line (.confirmBackup asking) s = .ok (.ask asked) s')
    (hasked : Deciding origin asked) : Onto line origin (.confirmBackup asking) asked ∧ s.OnlyWrote s' := by
  obtain ⟨rfl, hwrote⟩ | ⟨yes, -, h⟩ := withYesNo_asks h
  · exact ⟨.again, hwrote⟩
  cases yes with
  | false => exact absurd h ((deleteMarked_aside asking none).not_deciding hasked)
  | true =>
    cases h
    obtain he | hcopying := hasked
    · cases he
    · cases hcopying
      exact ⟨.folder, .refl s⟩

/-- A question about a deletion comes when the deletion is announced, and after that from one to the next with nothing
done in between. -/
theorem answer_asks (h : answer line screen s = .ok (.ask asked) s') (hasked : Deciding origin asked) :
    (asked = .confirmDeletion origin ∧ s.marked ≠ [] ∧ answer line screen s = announceDeletion origin s) ∨
      Onto line origin screen asked ∧ s.OnlyWrote s' := by
  have hannounced : ∀ {announced}, answer line screen s = announceDeletion announced s →
      asked = .confirmDeletion origin ∧ s.marked ≠ [] ∧ answer line screen s = announceDeletion origin s := by
    intro announced he
    obtain ⟨rfl, rfl, hmarks⟩ := announceDeletion_asks (he.symm.trans h) hasked
    exact ⟨rfl, hmarks, he⟩
  have hplain : Keeps (fun _ => True) Aside (answer line screen) → False := fun hk => hk.not_deciding hasked h
  cases screen with
  | mainMenu =>
    refine .inl ?_
    obtain ⟨entry, hgo⟩ | hk := withOption_cases .mainMenu s.menu line choose
    · have he : answer line .mainMenu s = choose entry s := congrFun hgo s
      obtain hchoose | hk := choose_cases entry
      · exact hannounced (he.trans (congrFun hchoose s))
      · exact absurd (he.symm.trans h) (hk.not_deciding hasked)
    · exact absurd h ((hk.mono fun _ he => he ▸ Plain.mainMenu.aside).not_deciding hasked)
  | actions =>
    obtain he | hk := actionCommand_cases stable_any line
    · exact .inl (hannounced (congrFun he s))
    · exact (hplain hk.aside).elim
  | filterMenu =>
    exact (hplain (withOption_keeps quiet_any Plain.filterMenu.aside _ line fun filter =>
      (setFilter_keeps stable_any filter).aside)).elim
  | ignoredActions =>
    exact (hplain ((keeps_any _).bind fun s _ => (ignoredCommand_keeps _ line (fun _ => keeps_any _)
      (ignoredActionList_keeps quiet_any) (mainMenu_keeps quiet_any)).aside)).elim
  | ignoredRoutes scan =>
    exact (hplain ((keeps_any _).bind fun s _ => (ignoredCommand_keeps _ line (fun _ => keeps_any _)
      (ignoredRouteList_keeps quiet_any scan) (routeList_keeps quiet_any scan)).aside)).elim
  | resultFile =>
    exact (hplain ((keeps_any _).bind fun _ _ => (keeps_any _).bind fun _ _ => (keeps_any _).bind fun _ _ =>
      (mainMenu_keeps quiet_any).aside)).elim
  | routes scan =>
    exact (hplain (routeCommand_keeps stable_any scan line (fun _ => Plain.aside) fun _ paths _ _ =>
      (Confirming.routes scan paths).aside (by rintro _ ⟨⟩))).elim
  | confirmDeletion asking => exact .inr (confirmDeletion_asks h hasked)
  | confirmBackup asking => exact .inr (confirmBackup_asks h hasked)
  | backupFolder asking =>
    exact (hplain ((keeps_any _).bind fun s _ => deleteMarked_aside asking _)).elim
  | confirmCleanup asking deleted folders =>
    exact (hplain (withYesNo_keeps quiet_any ((Confirming.cleanup ..).aside (by rintro _ ⟨⟩)) true line fun yes =>
      (confirmCleanup_keeps quiet_any (keeps_any _) (keeps_any _) asking yes).aside)).elim
  | confirmFolders folders =>
    exact (hplain (withYesNo_keeps quiet_any ((Confirming.folders ..).aside (by rintro _ ⟨⟩)) false line fun yes =>
      (confirmFolders_keeps quiet_any (keeps_any _) (fun _ _ _ => .intro) yes).aside)).elim
  | confirmRoutes scan paths =>
    exact (hplain (withYesNo_keeps quiet_any ((Confirming.routes ..).aside (by rintro _ ⟨⟩)) false line fun yes =>
      (confirmRoutes_keeps quiet_any (fun _ => keeps_any _) scan yes).aside)).elim

end Leading

end Dialog

open Dialog (Plain Copying Deciding yesNo?)

namespace Session

variable {first s t : Session} {lines : List Text} {next : Next} {screen : Screen} {line : Text} {origin : Origin}

theorem prompts_sound (hfirst : first.Sound) {k : Nat} (hk : (first.prompts lines next)[k]? = some (s, screen)) : s.Sound := by
  have hstep : ∀ screen, True → True → ∀ line, Dialog.Keeps Sound (fun _ => True) (Dialog.answer line screen) :=
    fun screen _ _ line => Dialog.answer_sound line screen
  exact ((run_keeps (fun _ => True) (fun _ => True) Dialog.sound_quiet hstep hfirst True.intro fun _ _ => True.intro).1 _
    (List.mem_of_getElem? hk)).1

/-- The `k`-th line is typed as the answer to a question, in a session that has both on its terminal. -/
def AnswersAt (first : Session) (lines : List Text) (next : Next) (k : Nat) (line : Text) (screen : Screen)
    (t : Session) : Prop :=
  ∃ s, (first.prompts lines next)[k]? = some (s, screen) ∧ lines[k]? = some line ∧ t = (s.asked screen).typed line

theorem AnswersAt.sound (hfirst : first.Sound) {k : Nat} (h : first.AnswersAt lines next k line screen t) : t.Sound := by
  obtain ⟨s, hprompt, -, rfl⟩ := h
  have hs : s.Sound := prompts_sound hfirst hprompt
  exact hs

/-- The next question comes from an answer to the one before. -/
theorem answersAt_of_succ {k : Nat} {asked : Screen} (h : (first.prompts lines next)[k + 1]? = some (s, asked)) :
    ∃ line screen t, first.AnswersAt lines next k line screen t ∧ Dialog.answer line screen t = .ok (.ask asked) s := by
  obtain ⟨before, screen, line, hprompt, hline, hanswer⟩ := prompts_succ h
  exact ⟨line, screen, _, ⟨before, hprompt, hline, rfl⟩, hanswer⟩

/-- A question about a deletion comes after the deletion was announced, and only the terminal has changed since. -/
theorem announced_of_deciding (hfirst : first.Sound) (hnext : Plain next) : ∀ {k : Nat} {s : Session} {asked : Screen},
    (first.prompts lines next)[k]? = some (s, asked) → Deciding origin asked →
    ∃ i < k, ∃ line screen t, first.AnswersAt lines next i line screen t ∧
      Dialog.answer line screen t = Dialog.announceDeletion origin t ∧ t.announcing.OnlyWrote s
  | 0, s, asked, h, hasked => by
    obtain ⟨rfl, -⟩ := prompts_zero h
    exact absurd rfl (hnext.aside origin asked hasked)
  | k + 1, s, asked, h, hasked => by
    obtain ⟨line, screen, t, hanswers, hanswer⟩ := answersAt_of_succ h
    obtain ⟨before, hprompt, -, rfl⟩ := id hanswers
    obtain ⟨-, hmarks, hannounce⟩ | ⟨honto, hwrote⟩ := Dialog.answer_asks hanswer hasked
    · have hsaid := Dialog.announceDeletion_says (hanswers.sound hfirst) hmarks origin
      rw [← hannounce, hanswer] at hsaid
      exact ⟨k, Nat.lt_succ_self k, line, screen, _, hanswers, hannounce, hsaid⟩
    · obtain ⟨i, hi, line', screen', t', hanswers', hannounce, hsaid⟩ :=
        announced_of_deciding hfirst hnext hprompt (honto.deciding hasked)
      exact ⟨i, Nat.lt_succ_of_lt hi, line', screen', t', hanswers', hannounce,
        (hsaid.trans (onlyWrote_typed before screen line)).trans hwrote⟩

/-- A question about copies comes after the deletion was confirmed, and only the terminal has changed since. -/
theorem confirmed_of_copying (hnext : Plain next) : ∀ {k : Nat} {s : Session} {asked : Screen},
    (first.prompts lines next)[k]? = some (s, asked) → Copying origin asked →
    ∃ j < k, ∃ line t, first.AnswersAt lines next j line (.confirmDeletion origin) t ∧ yesNo? false line = some true ∧
      t.OnlyWrote s
  | 0, s, asked, h, hcopying => by
    obtain ⟨rfl, -⟩ := prompts_zero h
    exact absurd rfl (hnext.aside origin asked (.inr hcopying))
  | k + 1, s, asked, h, hcopying => by
    obtain ⟨line, screen, t, hanswers, hanswer⟩ := answersAt_of_succ h
    obtain ⟨before, hprompt, -, rfl⟩ := id hanswers
    obtain ⟨rfl, -⟩ | ⟨honto, hwrote⟩ := Dialog.answer_asks hanswer (.inr hcopying)
    · cases hcopying
    have hearlier : Copying origin screen → ∃ j < k + 1, ∃ line t, first.AnswersAt lines next j line (.confirmDeletion origin) t ∧
        yesNo? false line = some true ∧ t.OnlyWrote s := by
      intro hscreen
      obtain ⟨j, hj, line', t', hanswers', hyes, hwrote'⟩ := confirmed_of_copying hnext hprompt hscreen
      exact ⟨j, Nat.lt_succ_of_lt hj, line', t', hanswers', hyes,
        (hwrote'.trans (onlyWrote_typed before screen line)).trans hwrote⟩
    cases honto with
    | again => exact hearlier hcopying
    | folder => exact hearlier .backup
    | backup hyes => exact ⟨k, Nat.lt_succ_self k, line, _, hanswers, hyes, hwrote⟩

/-- A deletion starts after it was confirmed, and only the terminal has changed since. -/
theorem confirmed_of_starts (hnext : Plain next) {k : Nat} {backup : Option Text}
    (h : first.AnswersAt lines next k line screen t) (hstarts : t.StartsDeletion line screen origin backup) :
    ∃ j ≤ k, ∃ answer u, first.AnswersAt lines next j answer (.confirmDeletion origin) u ∧
      yesNo? false answer = some true ∧ u.OnlyWrote t := by
  obtain ⟨s, hprompt, hline, rfl⟩ := id h
  have hearlier : Copying origin screen → ∃ j ≤ k, ∃ answer u, first.AnswersAt lines next j answer (.confirmDeletion origin) u ∧
      yesNo? false answer = some true ∧ u.OnlyWrote ((s.asked screen).typed line) := by
    intro hscreen
    obtain ⟨j, hj, answer, u, hanswers, hyes, hwrote⟩ := confirmed_of_copying hnext hprompt hscreen
    exact ⟨j, hj.le, answer, u, hanswers, hyes, hwrote.trans (onlyWrote_typed s screen line)⟩
  cases hstarts with
  | confirmed hyes => exact ⟨k, le_rfl, line, _, h, hyes, .refl _⟩
  | uncopied => exact hearlier .backup
  | copied => exact hearlier .folder

end Session

/-- At every question of a session over the result of a scan, whatever was typed: the marks are keys of the result, and
the actions to be deleted are those with the marked keys. The deletion is announced with the number of the marks, and a
deletion that is to be confirmed was announced before. A deletion starts when it was confirmed, with the files of the
actions marked at that moment, which are those that were marked when it was confirmed, and leaves the files as deleting
those does. No other answer changes files but as its question says. -/
theorem session_marks {scanned scanner : Scanner} {seen disk : Disk} {result : ScanResult}
    (hscan : (scanned.scan seen).1 = .ok result) {plan : SessionPlan} {ignored ignoredRoutes : IgnoreList}
    {console : Console} {next : Next} {first : Session}
    (hstart : Dialog.welcome (.start plan ignored ignoredRoutes disk console scanner result) = .ok next first)
    (lines : List Text) {k : Nat} {s : Session} {screen : Screen}
    (hprompt : (first.prompts lines next)[k]? = some (s, screen)) :
    first.run lines next = s.run (lines.drop k) (.ask screen) ∧
      (∀ key ∈ s.marked, key ∈ s.result.actions.map (·.key)) ∧ (s.targets.map (·.key)).Perm s.marked ∧
      (∀ origin, screen = .confirmDeletion origin → ∃ i < k, ∃ line before t, first.AnswersAt lines next i line before t ∧
        Dialog.answer line before t = Dialog.announceDeletion origin t ∧ t.announcing.OnlyWrote s) ∧
      ∀ line t, first.AnswersAt lines next k line screen t →
        (t.marked ≠ [] → ∀ origin, t.announcing.OnlyWrote (left (Dialog.announceDeletion origin t))) ∧
        (∀ origin backup, t.StartsDeletion line screen origin backup →
          Dialog.answer line screen t = Dialog.deleteMarked origin backup t ∧
          (left (Dialog.answer line screen t)).disk =
            left (Deletion.delete t.plan.project backup false t.targetFiles t.disk) ∧
          ∃ j ≤ k, ∃ answer u, first.AnswersAt lines next j answer (.confirmDeletion origin) u ∧
            yesNo? false answer = some true ∧ u.OnlyWrote t) ∧
        ((∀ origin backup, ¬ t.StartsDeletion line screen origin backup) →
          t.OtherWork line screen (left (Dialog.answer line screen t)).disk) := by
  have hbegin : (Session.start plan ignored ignoredRoutes disk console scanner result).Sound :=
    ⟨Scanner.nodup_keys hscan, List.nodup_nil, by simp [Session.start]⟩
  obtain ⟨hnext, hfirst⟩ := (Dialog.welcome_keeps Dialog.sound_quiet).ok hbegin hstart
  have hs : s.Sound := Session.prompts_sound hfirst hprompt
  refine ⟨Session.run_prompt hprompt, hs.marked, hs.targets_perm, ?_, fun line t hanswers =>
    ⟨Dialog.announceDeletion_says (hanswers.sound hfirst), fun origin backup hstarts => ?_, Dialog.answer_other⟩⟩
  · rintro origin rfl
    exact Session.announced_of_deciding hfirst hnext hprompt (.inl rfl)
  · have hanswer := Dialog.answer_starts hstarts
    refine ⟨hanswer, ?_, Session.confirmed_of_starts hnext hanswers hstarts⟩
    rw [hanswer, Dialog.disk_deleteMarked]

namespace Sample

/-- A session over the first project, with nothing ignored. -/
def plan (dryRun : Bool) : SessionPlan where
  project := project
  settings := .standard
  config := ScanSettings.standardConfig
  roots := .ok ScanSettings.standardDirs
  deletion := .known .standard
  dryRun := dryRun
  now := ⟨"now", "now"⟩

def session (result : ScanResult) : Session :=
  .start (plan false) (.new (project.under "i.json")) (.new (project.under "r.json")) disk (.new false) scanner result

/-- The list of actions, a mark, and a deletion that is confirmed, without copies. -/
def typedLines : List Text := ["1", "m 1", "d", "y", "n"]

/-- The marks and the files to be deleted at the question about copies, if it is the fifth one of a session. -/
def marksAtCopies : EStateM.Result Fault Session Next → Option (List Text × List Text)
  | .error _ _ => none
  | .ok next first =>
    match ((first.prompts typedLines next)[4]? : Option (Session × Screen)) with
    | some (s, .confirmBackup .actions) => some (s.marked, s.targetFiles)
    | _ => none

theorem of_marksAtCopies {begun : EStateM.Result Fault Session Next} {marks files : List Text}
    (h : marksAtCopies begun = some (marks, files)) : ∃ next first s, begun = .ok next first ∧
      (first.prompts typedLines next)[4]? = some (s, .confirmBackup .actions) ∧ s.marked = marks ∧ s.targetFiles = files := by
  cases begun with
  | error f s => cases h
  | ok next first =>
    simp only [marksAtCopies] at h
    split at h
    · rename_i s hs
      cases h
      exact ⟨next, first, s, rfl, hs, rfl, rfl⟩
    · cases h

end Sample

theorem sample_session_marks : ∃ result next first s, (Sample.scanner.scan Sample.disk).1 = .ok result ∧
    Dialog.welcome (Sample.session result) = .ok next first ∧
    (first.prompts Sample.typedLines next)[4]? = some (s, .confirmBackup .actions) ∧
    s.targetFiles = [("app/api/a.json" : Text)] ∧ (s.targets.map (·.key)).Perm s.marked ∧
    ∃ t, first.AnswersAt Sample.typedLines next 4 "n" (.confirmBackup .actions) t ∧
      t.StartsDeletion "n" (.confirmBackup .actions) .actions none ∧
      (left (Dialog.answer "n" (.confirmBackup .actions) t)).disk =
        left (Deletion.delete t.plan.project none false [("app/api/a.json" : Text)] t.disk) := by
  obtain ⟨result, hscan, hmarks⟩ : ∃ result, (Sample.scanner.scan Sample.disk).1 = .ok result ∧
      Sample.marksAtCopies (Dialog.welcome (Sample.session result)) = some ([("/api/a" : Text)], [("app/api/a.json" : Text)]) :=
    Outcome.ok_of_check (by decide +kernel)
  obtain ⟨next, first, s, hstart, hprompt, -, hfiles⟩ := Sample.of_marksAtCopies hmarks
  obtain ⟨-, -, hperm, -, hanswers⟩ := session_marks hscan hstart Sample.typedLines hprompt
  have hanswer : first.AnswersAt Sample.typedLines next 4 "n" (.confirmBackup .actions)
      ((s.asked (.confirmBackup .actions)).typed "n") := ⟨s, hprompt, rfl, rfl⟩
  have hstarts : ((s.asked (.confirmBackup .actions)).typed "n").StartsDeletion "n" (.confirmBackup .actions) .actions none :=
    .uncopied (by decide)
  obtain ⟨-, hdisk, -⟩ := (hanswers "n" _ hanswer).2.1 .actions none hstarts
  have hsame : ((s.asked (.confirmBackup .actions)).typed "n").targetFiles = [("app/api/a.json" : Text)] := hfiles
  rw [hsame] at hdisk
  exact ⟨result, next, first, s, hscan, hstart, hprompt, hfiles, hperm, _, hanswer, hstarts, hdisk⟩

end ActionSweep

/-
What a step of a session keeps. A property of sessions that nothing written can change is kept by everything that
only shows things, and where a step can lead is a property of its answer; so each part of a dialog has one lemma,
and the lemma of a whole is put together from those of its parts.
-/
import ActionSweep.Proofs.Outcome
import ActionSweep.Session.Run

namespace ActionSweep.Dialog

variable {α β : Type} {I : Session → Prop} {post post' : α → Prop} {x : Dialog α}

/-- A step that keeps a property of sessions, whether it ends well or not, and whose answers have a property. -/
def Keeps (I : Session → Prop) (post : α → Prop) (x : Dialog α) : Prop :=
  ∀ s, I s → match x s with
    | .ok a s' => post a ∧ I s'
    | .error _ s' => I s'

/-- A property of sessions that is not lost when more is written. -/
def Quiet (I : Session → Prop) : Prop :=
  ∀ s console, I s → s.console.output <:+ console.output → I { s with console := console }

/-! ## Parts -/

theorem Keeps.ok (h : Keeps I post x) {s s' : Session} {a : α} (hs : I s) (hx : x s = .ok a s') : post a ∧ I s' := by
  have := h s hs
  rwa [hx] at this

theorem Keeps.error (h : Keeps I post x) {s s' : Session} {f : Fault} (hs : I s) (hx : x s = .error f s') : I s' := by
  have := h s hs
  rwa [hx] at this

theorem Keeps.mono (h : Keeps I post x) (hpost : ∀ a, post a → post' a) : Keeps I post' x := by
  intro s hs
  cases hx : x s with
  | ok a s' => exact ⟨hpost a (h.ok hs hx).1, (h.ok hs hx).2⟩
  | error f s' => exact h.error hs hx

theorem Keeps.trivial (h : Keeps I post x) : Keeps I (fun _ => True) x := h.mono fun _ _ => .intro

theorem keeps_pure {a : α} (h : post a) : Keeps I post (pure a) := fun _ hs => ⟨h, hs⟩

theorem keeps_throw {f : Fault} : Keeps I post (throw f : Dialog α) := fun _ hs => hs

theorem Keeps.bind {f : α → Dialog β} {post' : β → Prop} (h : Keeps I post x) (hf : ∀ a, post a → Keeps I post' (f a)) :
    Keeps I post' (x >>= f) := by
  intro s hs
  show match EStateM.bind x f s with
    | .ok a s' => post' a ∧ I s'
    | .error _ s' => I s'
  unfold EStateM.bind
  cases hx : x s with
  | ok a s' => exact hf a (h.ok hs hx).1 s' (h.ok hs hx).2
  | error f s' => exact h.error hs hx

/-- What is read of a session is read of one that has the property. -/
theorem keeps_get {f : Session → Dialog β} {post' : β → Prop} (hf : ∀ s, I s → Keeps I post' (f s)) :
    Keeps I post' (get >>= f) := fun s hs => hf s hs s hs

theorem keeps_set {s : Session} (h : I s) : Keeps I (fun _ => True) (set s : Dialog Unit) := fun _ _ => ⟨.intro, h⟩

theorem keeps_modify {f : Session → Session} (h : ∀ s, I s → I (f s)) : Keeps I (fun _ => True) (modify f : Dialog Unit) :=
  fun s hs => ⟨.intro, h s hs⟩

theorem keeps_forM {xs : List α} {f : α → Dialog Unit} (h : ∀ a ∈ xs, Keeps I (fun _ => True) (f a)) :
    Keeps I (fun _ => True) (xs.forM f) := by
  induction xs with
  | nil => exact keeps_pure .intro
  | cons a xs ih => exact (h a (List.mem_cons_self ..)).bind fun _ _ => ih fun b hb => h b (List.mem_cons_of_mem _ hb)

theorem keeps_need (y : Except Fault α) : Keeps I (fun a => y = .ok a) (need y) := by
  intro s hs
  unfold need
  cases y with
  | ok a => exact ⟨rfl, hs⟩
  | error f => exact hs

theorem keeps_files {work : FileWork α}
    (h : ∀ s, I s → ∀ disk, (∃ a, work s.disk = .ok a disk) ∨ (∃ f, work s.disk = .error f disk) →
      I { s with disk := disk }) : Keeps I (fun _ => True) (files work) := by
  intro s hs
  unfold files
  cases hwork : work s.disk with
  | ok a disk => exact ⟨.intro, h s hs disk (.inl ⟨a, hwork⟩)⟩
  | error f disk => exact h s hs disk (.inr ⟨f, hwork⟩)

theorem keeps_look (question : Disk → Except Fault α) : Keeps I (fun _ => True) (look question) := by
  intro s hs
  unfold look files FileWork.ask
  cases question s.disk with
  | ok a => exact ⟨.intro, hs⟩
  | error f => exact hs

/-! ## Writing -/

section Writing

variable (hI : Quiet I)

include hI

theorem say_keeps (t : Text) : Keeps I (fun _ => True) (say t) := keeps_modify fun s hs => hI s _ hs (List.suffix_cons ..)

theorem sayIn_keeps (style : Style) (t : Text) : Keeps I (fun _ => True) (sayIn style t) := say_keeps hI _

theorem skipLine_keeps : Keeps I (fun _ => True) skipLine := say_keeps hI _

theorem preview_keeps (items : List Text) : Keeps I (fun _ => True) (preview items) := by
  refine (keeps_forM fun x _ => say_keeps hI _).bind fun _ _ => ?_
  split
  · exact sayIn_keeps hI _ _
  · exact keeps_pure .intro

theorem showOptions_keeps {options : List (α × Text)} (title : Text) :
    Keeps I (fun _ => True) (showOptions title options) :=
  (skipLine_keeps hI).bind fun _ _ => (sayIn_keeps hI _ _).bind fun _ _ => keeps_forM fun _ _ => say_keeps hI _

theorem showIgnored_keeps (keys : List Value) (what : Text) : Keeps I (fun _ => True) (showIgnored keys what) := by
  refine (skipLine_keeps hI).bind fun _ _ => ?_
  split
  · exact (sayIn_keeps hI _ _).bind fun _ _ => keeps_pure .intro
  · exact (keeps_forM fun _ _ => say_keeps hI _).bind fun _ _ => keeps_pure .intro

theorem showReferences_keeps (a : Action) : Keeps I (fun _ => True) (showReferences a) := by
  have hlist : Keeps I (fun _ => True) (a.references.forM fun r =>
      say ("  " ++ r.source ++ " [" ++ r.provenance.label ++ "] " ++ r.original)) := keeps_forM fun _ _ => say_keeps hI _
  unfold showReferences
  refine (sayIn_keeps hI _ _).bind fun _ _ => ?_
  split
  · exact (say_keeps hI _).bind fun _ _ => hlist
  · exact hlist

theorem unknownCommand_keeps (line : Text) : Keeps I (fun _ => True) (unknownCommand line) := sayIn_keeps hI _ _

theorem sayDeletion_keeps (report : DeletionReport) (backup : Option Text) :
    Keeps I (fun _ => True) (sayDeletion report backup) := by
  have hcopies : Keeps I (fun _ => True) (if (!report.backedUp.isEmpty) = true then
      say ("Backed up " ++ Text.ofNat report.backedUp.length ++ " files to " ++ backup.getD []) else pure ()) := by
    split
    · exact say_keeps hI _
    · exact keeps_pure .intro
  unfold sayDeletion
  dsimp only
  split
  · exact (sayIn_keeps hI _ _).bind fun _ _ => hcopies
  · refine (sayIn_keeps hI _ _).bind fun _ _ => (keeps_forM fun x _ => ?_).bind fun _ _ => hcopies
    exact sayIn_keeps hI _ _

end Writing

/-! ## Where a step leads -/

/-- A question from which nothing is deleted. -/
inductive Plain : Next → Prop
  | mainMenu : Plain (.ask .mainMenu)
  | actions : Plain (.ask .actions)
  | filterMenu : Plain (.ask .filterMenu)
  | ignoredActions : Plain (.ask .ignoredActions)
  | ignoredRoutes (scan : RouteScan) : Plain (.ask (.ignoredRoutes scan))
  | resultFile : Plain (.ask .resultFile)
  | routes (scan : RouteScan) : Plain (.ask (.routes scan))
  | leave : Plain .leave

section Screens

variable (hI : Quiet I)

include hI

theorem mainMenu_keeps : Keeps I Plain mainMenu :=
  keeps_get fun _ _ => (showOptions_keeps hI _).bind fun _ _ => keeps_pure .mainMenu

theorem welcome_keeps : Keeps I Plain welcome := keeps_get fun _ _ => (say_keeps hI _).bind fun _ _ => mainMenu_keeps hI

theorem filterMenu_keeps : Keeps I Plain filterMenu :=
  (showOptions_keeps hI _).bind fun _ _ => keeps_pure .filterMenu

theorem actionList_keeps : Keeps I Plain actionList := by
  refine keeps_get fun s _ => (skipLine_keeps hI).bind fun _ _ => (sayIn_keeps hI _ _).bind fun _ _ => ?_
  have hlist : Keeps I (fun _ => True) ((numbered s.visible).forM fun x => say (actionLine s x.1 x.2)) :=
    keeps_forM fun _ _ => say_keeps hI _
  have hrest := hlist.bind fun _ _ => keeps_pure (I := I) Plain.actions
  dsimp only
  split
  · exact (sayIn_keeps hI _ _).bind fun _ _ => hrest
  · exact hrest

theorem ignoredActionList_keeps : Keeps I Plain ignoredActionList := by
  refine keeps_get fun s _ => (showIgnored_keeps hI _ _).bind fun shown _ => ?_
  split
  · exact keeps_pure .ignoredActions
  · exact mainMenu_keeps hI

theorem routeList_keeps (scan : RouteScan) : Keeps I Plain (routeList scan) := by
  refine keeps_get fun s _ => (skipLine_keeps hI).bind fun _ _ => (say_keeps hI _).bind fun _ _ => ?_
  have hlist : Keeps I (fun _ => True) ((numbered (s.openRoutes scan)).forM fun x => (routeLines x.1 x.2).forM say) :=
    keeps_forM fun x _ => keeps_forM fun t _ => say_keeps hI t
  have hrest : Keeps I Plain (if ((s.openRoutes scan).isEmpty && s.ignoredRoutes.keys.isEmpty) = true then mainMenu
      else do
        (numbered (s.openRoutes scan)).forM fun x => (routeLines x.1 x.2).forM say
        return .ask (.routes scan)) := by
    split
    · exact mainMenu_keeps hI
    · exact hlist.bind fun _ _ => keeps_pure (.routes scan)
  dsimp only
  split
  · exact (sayIn_keeps hI _ _).bind fun _ _ => hrest
  · exact hrest

theorem ignoredRouteList_keeps (scan : RouteScan) : Keeps I Plain (ignoredRouteList scan) := by
  refine keeps_get fun s _ => (showIgnored_keeps hI _ _).bind fun shown _ => ?_
  split
  · exact keeps_pure (.ignoredRoutes scan)
  · exact routeList_keeps hI scan

theorem back_keeps : ∀ origin, Keeps I Plain (back origin)
  | .mainMenu => mainMenu_keeps hI
  | .actions => actionList_keeps hI

end Screens

/-! ## Answers -/

theorem withNumber_keeps {post : Next → Prop} (hI : Quiet I) {screen : Screen} (hscreen : post (.ask screen)) (upper : Nat)
    (line : Text) {go : Nat → Dialog Next} (hgo : ∀ n, Keeps I post (go n)) :
    Keeps I post (withNumber screen upper line go) := by
  unfold withNumber
  split
  · exact keeps_pure hscreen
  · split
    · exact (say_keeps hI _).bind fun _ _ => keeps_pure hscreen
    · split
      · exact hgo _
      · exact (say_keeps hI _).bind fun _ _ => keeps_pure hscreen

theorem withOption_keeps {post : Next → Prop} (hI : Quiet I) {screen : Screen} (hscreen : post (.ask screen))
    (options : List (α × Text)) (line : Text) {go : α → Dialog Next} (hgo : ∀ a, Keeps I post (go a)) :
    Keeps I post (withOption screen options line go) := by
  refine withNumber_keeps hI hscreen _ line fun n => ?_
  split
  · exact hgo _
  · exact keeps_pure hscreen

/-- What a line says to a question to be answered with yes or no, if it says something. -/
def yesNo? (standard : Bool) (line : Text) : Option Bool :=
  let word := (Text.lower line).trimBlank
  if word = "y" || word = "yes" then some true
  else if word = "n" || word = "no" then some false
  else if word.isEmpty then some standard
  else none

theorem withYesNo_eq (screen : Screen) (standard : Bool) (line : Text) (go : Bool → Dialog Next) :
    withYesNo screen standard line go =
      match yesNo? standard line with
      | some yes => go yes
      | none => do
        say "Error: invalid input"
        return .ask screen := by
  unfold withYesNo yesNo?
  dsimp only
  split
  · rfl
  · split
    · rfl
    · split
      · rfl
      · rfl

theorem withYesNo_keeps {post : Next → Prop} (hI : Quiet I) {screen : Screen} (hscreen : post (.ask screen))
    (standard : Bool) (line : Text) {go : Bool → Dialog Next} (hgo : ∀ yes, Keeps I post (go yes)) :
    Keeps I post (withYesNo screen standard line go) := by
  rw [withYesNo_eq]
  split
  · exact hgo _
  · exact (say_keeps hI _).bind fun _ _ => keeps_pure hscreen

/-- A question after which something is deleted if the answer is yes. -/
inductive Confirming : Next → Prop
  | deletion (origin : Origin) : Confirming (.ask (.confirmDeletion origin))
  | cleanup (origin : Origin) (deleted folders : List Text) : Confirming (.ask (.confirmCleanup origin deleted folders))
  | folders (folders : List Text) : Confirming (.ask (.confirmFolders folders))
  | routes (scan : RouteScan) (paths : List Value) : Confirming (.ask (.confirmRoutes scan paths))

/-- Where plain questions lead: to plain questions, and to others only where something may be deleted. -/
def Leads (I : Session → Prop) (next : Next) : Prop :=
  Plain next ∨ (∃ s, I s ∧ s.plan.dryRun = false) ∧ Confirming next

theorem Plain.leads {next : Next} (h : Plain next) : Leads I next := .inl h

theorem Keeps.leads {x : Dialog Next} (h : Keeps I Plain x) : Keeps I (Leads I) x := h.mono fun _ => Plain.leads

theorem askDeletion_keeps {post : Next → Prop} (hI : Quiet I) (s : Session) (origin : Origin)
    (hplain : ∀ next, Plain next → post next) (hask : s.plan.dryRun = false → post (.ask (.confirmDeletion origin))) :
    Keeps I post (askDeletion s origin) := by
  refine (preview_keeps hI _).bind fun _ _ => ?_
  split
  · exact (sayIn_keeps hI _ _).bind fun _ _ => (back_keeps hI origin).mono hplain
  · rename_i hdry
    have hquestion : Keeps I post (pure (.ask (.confirmDeletion origin))) := keeps_pure (hask (Bool.eq_false_iff.2 hdry))
    refine (keeps_look _).bind fun untracked _ => ?_
    dsimp only
    split
    · exact (sayIn_keeps hI _ _).bind fun _ _ => hquestion
    · exact hquestion
    · exact (sayIn_keeps hI _ _).bind fun _ _ => (preview_keeps hI _).bind fun _ _ => hquestion

theorem announceDeletion_keeps (hI : Quiet I) (origin : Origin) : Keeps I (Leads I) (announceDeletion origin) := by
  refine keeps_get fun s hs => ?_
  split
  · exact (sayIn_keeps hI _ _).bind fun _ _ => (back_keeps hI origin).leads
  · exact (sayIn_keeps hI _ _).bind fun _ _ => askDeletion_keeps hI s origin (fun _ => Plain.leads) fun hdry =>
      .inr ⟨⟨s, hs, hdry⟩, .deletion origin⟩

theorem findFolders_keeps : Keeps I (fun _ => True) findFolders := keeps_get fun _ _ => keeps_look _

theorem folderList_keeps {post : Next → Prop} (hI : Quiet I) (hplain : ∀ next, Plain next → post next)
    (hask : ∀ s folders, I s → s.plan.dryRun = false → post (.ask (.confirmFolders folders))) :
    Keeps I post folderList := by
  refine findFolders_keeps.bind fun folders _ => ?_
  split
  · exact (sayIn_keeps hI _ _).bind fun _ _ => (mainMenu_keeps hI).mono hplain
  · refine (sayIn_keeps hI _ _).bind fun _ _ => (preview_keeps hI _).bind fun _ _ => keeps_get fun s hs => ?_
    split
    · exact (sayIn_keeps hI _ _).bind fun _ _ => (mainMenu_keeps hI).mono hplain
    · rename_i hdry
      exact keeps_pure (hask s _ hs (Bool.eq_false_iff.2 hdry))

theorem routeTable_keeps : Keeps I (fun _ => True) routeTable := keeps_get fun _ _ => (keeps_need _).trivial

theorem checkRoutes_keeps (hI : Quiet I) : Keeps I Plain checkRoutes := by
  refine routeTable_keeps.bind fun table _ => keeps_get fun s _ => ?_
  split
  · split
    · exact (sayIn_keeps hI _ _).bind fun _ _ => mainMenu_keeps hI
    · exact keeps_throw
  · split
    · exact routeList_keeps hI _
    · exact (sayIn_keeps hI _ _).bind fun _ _ => mainMenu_keeps hI

theorem announceRemoval_keeps {post : Next → Prop} (hI : Quiet I) (scan : RouteScan) (paths : List Value)
    (hplain : ∀ next, Plain next → post next)
    (hask : ∀ s, I s → s.plan.dryRun = false → post (.ask (.confirmRoutes scan paths))) :
    Keeps I post (announceRemoval scan paths) := by
  unfold announceRemoval
  split
  · exact (routeList_keeps hI scan).mono hplain
  · refine (sayIn_keeps hI _ _).bind fun _ _ => (preview_keeps hI _).bind fun _ _ => keeps_get fun s hs => ?_
    split
    · exact (sayIn_keeps hI _ _).bind fun _ _ => (routeList_keeps hI scan).mono hplain
    · rename_i hdry
      exact keeps_pure (hask s hs (Bool.eq_false_iff.2 hdry))

theorem choose_keeps (hI : Quiet I) : ∀ entry, Keeps I (Leads I) (choose entry)
  | .actions => (actionList_keeps hI).leads
  | .routes => (checkRoutes_keeps hI).leads
  | .folders => folderList_keeps hI (fun _ => Plain.leads) fun s folders hs hdry => .inr ⟨⟨s, hs, hdry⟩, .folders folders⟩
  | .ignored => (ignoredActionList_keeps hI).leads
  | .saving => keeps_pure (.inl .resultFile)
  | .deletion => announceDeletion_keeps hI .mainMenu
  | .leaving => (sayIn_keeps hI _ _).bind fun _ _ => keeps_pure (.inl .leave)

/-! ## Commands -/

theorem forNumbered_keeps {items : List α} {act : α → Dialog Unit} (rest : Text)
    (hact : ∀ a ∈ items, Keeps I (fun _ => True) (act a)) : Keeps I (fun _ => True) (forNumbered rest items act) := by
  refine (keeps_need _).bind fun positions _ => keeps_forM fun i _ => ?_
  split
  · rename_i a ha
    exact hact a (List.mem_of_getElem? ha)
  · exact keeps_pure .intro

theorem ignoredCommand_keeps (keys : List Value) {remove : Value → Dialog Unit} {again leave : Dialog Next} (line : Text)
    (hremove : ∀ key, Keeps I (fun _ => True) (remove key)) (hagain : Keeps I Plain again) (hleave : Keeps I Plain leave) :
    Keeps I Plain (ignoredCommand keys remove again leave line) := by
  unfold ignoredCommand
  dsimp only
  split
  · exact (forNumbered_keeps _ fun key _ => hremove key).bind fun _ _ => hagain
  · exact hleave

/-- Adding a key to a list of ignored keys, or removing one. -/
inductive IsChange : (Stamp → IgnoreWork Unit) → Prop
  | add (key : Value) : IsChange (IgnoreWork.add key)
  | remove (key : Value) : IsChange (IgnoreWork.remove key)

/-- A property of sessions that no command of a plain question can change. -/
structure Stable (I : Session → Prop) : Prop where
  quiet : Quiet I
  filters : ∀ s filter, I s → I { s with filter := filter }
  marks : ∀ s, I s → ∀ a ∈ s.visible, Keeps I (fun _ => True) (toggleMark a.key)
  unmarks : ∀ s key, I s → I { s with marked := s.marked.erase key }
  ignores : ∀ work, IsChange work → Keeps I (fun _ => True) (changeIgnored work)
  ignoresRoutes : ∀ work, IsChange work → Keeps I (fun _ => True) (changeIgnoredRoutes work)

section Commands

variable (hI : Stable I)

include hI

theorem toggleIgnored_keeps (key : Text) : Keeps I (fun _ => True) (toggleIgnored key) := by
  refine keeps_get fun s _ => ?_
  split
  · exact hI.ignores _ (.remove _)
  · exact (hI.ignores _ (.add _)).bind fun _ _ => keeps_modify fun s hs => hI.unmarks s key hs

theorem forActions_keeps (rest : Text) {act : Action → Dialog Unit}
    (hact : ∀ s, I s → ∀ a ∈ s.visible, Keeps I (fun _ => True) (act a)) : Keeps I Plain (forActions rest act) :=
  keeps_get fun s hs => (forNumbered_keeps rest (hact s hs)).bind fun _ _ => actionList_keeps hI.quiet

/-- A command at the list of actions announces a deletion, or leads to a plain question. -/
theorem actionCommand_cases (line : Text) :
    actionCommand line = announceDeletion .actions ∨ Keeps I Plain (actionCommand line) := by
  unfold actionCommand
  dsimp only
  split
  · exact .inr (mainMenu_keeps hI.quiet)
  · split
    · exact .inr (filterMenu_keeps hI.quiet)
    · split
      · exact .inl rfl
      · refine .inr ?_
        split
        · exact forActions_keeps hI _ hI.marks
        · split
          · exact forActions_keeps hI _ fun _ _ a _ => toggleIgnored_keeps hI a.key
          · split
            · exact forActions_keeps hI _ fun _ _ a _ => showReferences_keeps hI.quiet a
            · exact (unknownCommand_keeps hI.quiet _).bind fun _ _ => actionList_keeps hI.quiet

theorem actionCommand_keeps (line : Text) : Keeps I (Leads I) (actionCommand line) := by
  obtain h | h := actionCommand_cases hI line
  · rw [h]
    exact announceDeletion_keeps hI.quiet .actions
  · exact h.leads

theorem setFilter_keeps (filter : ActionFilter) : Keeps I Plain (setFilter filter) :=
  (keeps_modify fun s hs => hI.filters s filter hs).bind fun _ _ => actionList_keeps hI.quiet

theorem ignoreRoute_keeps (d : DeadRoute) : Keeps I (fun _ => True) (ignoreRoute d) := by
  unfold ignoreRoute
  split
  · exact hI.ignoresRoutes _ (.add _)
  · exact keeps_pure .intro

theorem routeCommand_keeps {post : Next → Prop} (scan : RouteScan) (line : Text) (hplain : ∀ next, Plain next → post next)
    (hask : ∀ s paths, I s → s.plan.dryRun = false → post (.ask (.confirmRoutes scan paths))) :
    Keeps I post (routeCommand scan line) := by
  have hlist : Keeps I post (routeList scan) := (routeList_keeps hI.quiet scan).mono hplain
  refine keeps_get fun s _ => ?_
  dsimp only
  split
  · exact (mainMenu_keeps hI.quiet).mono hplain
  · split
    · exact (forNumbered_keeps _ fun d _ => ignoreRoute_keeps hI d).bind fun _ _ => hlist
    · split
      · exact (ignoredRouteList_keeps hI.quiet scan).mono hplain
      · split
        · exact announceRemoval_keeps hI.quiet scan _ hplain fun s hs hdry => hask s _ hs hdry
        · split
          · exact (keeps_need _).bind fun positions _ =>
              announceRemoval_keeps hI.quiet scan _ hplain fun s hs hdry => hask s _ hs hdry
          · exact (unknownCommand_keeps hI.quiet _).bind fun _ _ => hlist

/-- The answer to a plain question, unless it is to save the result. -/
theorem answer_keeps {screen : Screen} (hplain : Plain (.ask screen)) (hsave : screen ≠ .resultFile) (line : Text) :
    Keeps I (Leads I) (answer line screen) := by
  cases hplain with
  | mainMenu => exact keeps_get fun s _ => withOption_keeps hI.quiet (.inl .mainMenu) _ line (choose_keeps hI.quiet)
  | actions => exact actionCommand_keeps hI line
  | filterMenu =>
    exact withOption_keeps hI.quiet (.inl .filterMenu) _ line fun filter => (setFilter_keeps hI filter).leads
  | ignoredActions =>
    exact keeps_get fun s _ => (ignoredCommand_keeps _ line (fun key => hI.ignores _ (.remove key))
      (ignoredActionList_keeps hI.quiet) (mainMenu_keeps hI.quiet)).leads
  | ignoredRoutes scan =>
    exact keeps_get fun s _ => (ignoredCommand_keeps _ line (fun key => hI.ignoresRoutes _ (.remove key))
      (ignoredRouteList_keeps hI.quiet scan) (routeList_keeps hI.quiet scan)).leads
  | resultFile => exact absurd rfl hsave
  | routes scan =>
    exact routeCommand_keeps hI scan line (fun _ => Plain.leads) fun s paths hs hdry => .inr ⟨⟨s, hs, hdry⟩, .routes scan paths⟩

end Commands

end ActionSweep.Dialog

/-
Where a session saves its lists of ignored keys. A command that names several items changes a list once for each of
them, so the moments at which a list is saved are the turns of the loops over such items, each with the session before
it and after it. In everything else that is answered to a plain question the files stay as they are, unless the result
is saved.
-/
import ActionSweep.Proofs.Session.Answers
import ActionSweep.Proofs.Session.Prompts

namespace ActionSweep

open Outcome (left)

variable {α : Type} {s : Session} {place : List Text} {e : Entry}

/-! ## Turns -/

namespace Dialog

/-- The turns of a loop, each with the session before it and after it. The loop ends where one of them fails. -/
def turns (f : α → Dialog Unit) : List α → Session → List (Session × Session)
  | [], _ => []
  | a :: as, s => (s, left (f a s)) :: match f a s with
    | .ok () s' => turns f as s'
    | .error _ _ => []

/-- The turns of a loop over the items that the numbers of a command name. -/
def numberedTurns (rest : Text) (items : List α) (act : α → Dialog Unit) (s : Session) : List (Session × Session) :=
  match Numeral.positions rest items.length with
  | .error _ => []
  | .ok ps => turns (fun i => match items[i]? with | some a => act a | none => pure ()) ps s

/-- The turns in which the answer to a question changes lists of ignored keys. -/
def answerTurns (line : Text) (s : Session) : Screen → List (Session × Session)
  | .actions =>
    let (verb, rest) := command (orProposed line "b")
    if verb = "i" then numberedTurns rest s.visible (fun a => toggleIgnored a.key) s else []
  | .ignoredActions =>
    let (verb, rest) := command (orProposed line "b")
    if verb = "u" then numberedTurns rest s.ignored.keys (fun key => changeIgnored (IgnoreWork.remove key)) s else []
  | .ignoredRoutes _ =>
    let (verb, rest) := command (orProposed line "b")
    if verb = "u" then numberedTurns rest s.ignoredRoutes.keys (fun key => changeIgnoredRoutes (IgnoreWork.remove key)) s
    else []
  | .routes scan =>
    let (verb, rest) := command (orProposed line "b")
    if verb = "i" then numberedTurns rest (s.openRoutes scan) ignoreRoute s else []
  | .mainMenu | .filterMenu | .resultFile | .confirmDeletion _ | .confirmBackup _ | .backupFolder _
  | .confirmCleanup _ _ _ | .confirmFolders _ | .confirmRoutes _ _ => []

end Dialog

namespace Session

/-- The turns of a session in which lists of ignored keys are changed, in their order. -/
def turns (s : Session) : List Text → Next → List (Session × Session)
  | _, .leave => []
  | [], .ask _ => []
  | line :: lines, .ask screen =>
    Dialog.answerTurns line ((s.asked screen).typed line) screen ++
      match Dialog.answer line screen ((s.asked screen).typed line) with
      | .ok next s => turns s lines next
      | .error _ _ => []

/-- In a turn a list of ignored keys gets longer or shorter and is saved, and a place is where it is written or moved. -/
def SavesAt (turn : Session × Session) (place : List Text) : Prop :=
  ∃ change ∈ [(turn.1.ignored, turn.2.ignored), (turn.1.ignoredRoutes, turn.2.ignoredRoutes)],
    change.2.keys.length ≠ change.1.keys.length ∧
      ∃ moment ∈ change.2.savingDisks turn.1.plan.now turn.1.disk, SavingPlace moment change.2.path place

instance (turn : Session × Session) (place : List Text) : Decidable (SavesAt turn place) :=
  inferInstanceAs (Decidable (∃ change ∈ [(turn.1.ignored, turn.2.ignored), (turn.1.ignoredRoutes, turn.2.ignoredRoutes)],
    change.2.keys.length ≠ change.1.keys.length ∧
      ∃ moment ∈ change.2.savingDisks turn.1.plan.now turn.1.disk, SavingPlace moment change.2.path place))

end Session

open Session (SavesAt)

namespace Dialog

/-! ## One turn -/

/-- A step that leaves everything in place but a file or a link where it saves a list of ignored keys. -/
def Turning (x : Dialog Unit) : Prop :=
  ∀ s place e, s.disk.root.find? place = some e →
    (left (x s)).disk.root.StillHas place e ∨ (∀ inside, e ≠ .folder inside) ∧ SavesAt (s, left (x s)) place

theorem IsChange.staysBut {work : Stamp → IgnoreWork Unit} (h : IsChange work) (now : Stamp) :
    IgnoreWork.StaysBut (work now) now := by
  cases h with
  | add key => exact IgnoreWork.add_staysBut key now
  | remove key => exact IgnoreWork.remove_staysBut key now

theorem changeIgnored_turning {work : Stamp → IgnoreWork Unit} (h : IsChange work) : Turning (changeIgnored work) := by
  intro s place e he
  rw [left_changeIgnored]
  refine (h.staysBut s.plan.now ⟨s.ignored, s.disk⟩ he).imp_right (And.imp_right ?_)
  rintro ⟨hlength, moment, hmoment, hplace⟩
  exact ⟨_, List.mem_cons_self .., hlength, moment, hmoment, hplace⟩

theorem changeIgnoredRoutes_turning {work : Stamp → IgnoreWork Unit} (h : IsChange work) :
    Turning (changeIgnoredRoutes work) := by
  intro s place e he
  rw [left_changeIgnoredRoutes]
  refine (h.staysBut s.plan.now ⟨s.ignoredRoutes, s.disk⟩ he).imp_right (And.imp_right ?_)
  rintro ⟨hlength, moment, hmoment, hplace⟩
  exact ⟨_, List.mem_cons_of_mem _ (List.mem_cons_self ..), hlength, moment, hmoment, hplace⟩

/-- What is changed afterwards may be anything but files and lists. -/
theorem Turning.modify {x : Dialog Unit} (hx : Turning x) {f : Session → Session}
    (hf : ∀ s, (f s).disk = s.disk ∧ (f s).ignored = s.ignored ∧ (f s).ignoredRoutes = s.ignoredRoutes) :
    Turning (x >>= fun _ => modify f) := by
  intro s place e he
  have hturn := hx s place e he
  show (left (EStateM.bind x _ s)).disk.root.StillHas place e ∨ _ ∧ SavesAt (s, left (EStateM.bind x _ s)) place
  unfold EStateM.bind
  cases hend : x s with
  | ok u s' =>
    obtain ⟨hdisk, hignored, hroutes⟩ := hf s'
    rw [hend] at hturn
    show (f s').disk.root.StillHas place e ∨ _ ∧ SavesAt (s, f s') place
    unfold SavesAt at hturn ⊢
    rw [hdisk, hignored, hroutes]
    exact hturn
  | error g s' =>
    rw [hend] at hturn
    exact hturn

theorem toggleIgnored_turning (key : Text) : Turning (toggleIgnored key) := by
  intro s
  by_cases hkey : s.ignored.isIgnored (.text key) = true
  · have hremove : toggleIgnored key s = changeIgnored (IgnoreWork.remove (.text key)) s := by
      show (if s.ignored.isIgnored (.text key) = true then _ else _ : Dialog Unit) s = _
      rw [if_pos hkey]
    rw [hremove]
    exact changeIgnored_turning (.remove _) s
  · have hadd : toggleIgnored key s = (changeIgnored (IgnoreWork.add (.text key)) >>= fun _ =>
        modify fun s => { s with marked := s.marked.erase key }) s := by
      show (if s.ignored.isIgnored (.text key) = true then _ else _ : Dialog Unit) s = _
      rw [if_neg hkey]
    rw [hadd]
    have hadds : Turning (changeIgnored (IgnoreWork.add (.text key))) := changeIgnored_turning (.add _)
    exact hadds.modify (f := fun s => { s with marked := s.marked.erase key }) (fun _ => ⟨rfl, rfl, rfl⟩) s

theorem ignoreRoute_turning (d : DeadRoute) : Turning (ignoreRoute d) := by
  intro s place e he
  unfold ignoreRoute
  split
  · exact changeIgnoredRoutes_turning (.add _) s place e he
  · exact .inl (Dir.stillHas_self he)

/-! ## Loops -/

theorem forM_stillHas {f : α → Dialog Unit} (hf : ∀ a, Turning (f a)) : ∀ (xs : List α) {s : Session} {e : Entry},
    s.disk.root.find? place = some e → (left (xs.forM f s)).disk.root.StillHas place e ∨
      (∀ inside, e ≠ .folder inside) ∧ ∃ turn ∈ turns f xs s, SavesAt turn place
  | [], s, e, he => .inl (Dir.stillHas_self he)
  | x :: xs, s, e, he => by
    have hturn := (hf x s place e he).imp_right (And.imp_right fun h =>
      (⟨_, List.mem_cons_self .., h⟩ : ∃ turn ∈ turns f (x :: xs) s, SavesAt turn place))
    show (left (EStateM.bind (f x) (fun _ => xs.forM f) s)).disk.root.StillHas place e ∨ _
    unfold EStateM.bind
    cases hx : f x s with
    | error g s' =>
      rw [hx] at hturn
      exact hturn
    | ok u s' =>
      rw [hx] at hturn
      refine Dir.stillHas_trans hturn fun e' he' => ?_
      refine (forM_stillHas hf xs he').imp_right (And.imp_right ?_)
      rintro ⟨turn, hmem, hsaves⟩
      refine ⟨turn, ?_, hsaves⟩
      rw [turns, hx]
      exact List.mem_cons_of_mem _ hmem

theorem forNumbered_stillHas {act : α → Dialog Unit} (hact : ∀ a, Turning (act a)) (rest : Text) (items : List α)
    (he : s.disk.root.find? place = some e) : (left (forNumbered rest items act s)).disk.root.StillHas place e ∨
      (∀ inside, e ≠ .folder inside) ∧ ∃ turn ∈ numberedTurns rest items act s, SavesAt turn place := by
  have hitem : ∀ i : Nat, Turning (match items[i]? with | some a => act a | none => pure ()) := by
    intro i
    split
    · exact hact _
    · exact fun s place e he => .inl (Dir.stillHas_self he)
  show (left (EStateM.bind (positions rest items.length) _ s)).disk.root.StillHas place e ∨ _
  unfold EStateM.bind positions need numberedTurns
  cases Numeral.positions rest items.length with
  | error f => exact .inl (Dir.stillHas_self he)
  | ok ps => exact forM_stillHas hitem ps he

theorem turns_keep {I : Session → Prop} {f : α → Dialog Unit} (hf : ∀ a, Keeps I (fun _ => True) (f a))
    {turn : Session × Session} : ∀ {xs : List α} {s : Session}, I s → turn ∈ turns f xs s → I turn.1 ∧ I turn.2
  | [], s, _, hturn => by cases hturn
  | x :: xs, s, hs, hturn => by
    obtain rfl | hturn := List.mem_cons.1 hturn
    · exact ⟨hs, keeps_left (hf x) hs⟩
    · cases hx : f x s with
      | ok u s' =>
        rw [hx] at hturn
        exact turns_keep hf ((hf x).ok hs hx).2 hturn
      | error g s' =>
        rw [hx] at hturn
        cases hturn

theorem numberedTurns_keep {I : Session → Prop} {act : α → Dialog Unit} {rest : Text} {items : List α}
    (hact : ∀ a, Keeps I (fun _ => True) (act a)) {turn : Session × Session} (hs : I s)
    (hturn : turn ∈ numberedTurns rest items act s) : I turn.1 ∧ I turn.2 := by
  unfold numberedTurns at hturn
  split at hturn
  · cases hturn
  · refine turns_keep (fun i => ?_) hs hturn
    split
    · exact hact _
    · exact keeps_pure .intro

/-- What no command can change holds before and after the turns of an answer. -/
theorem answerTurns_keep {I : Session → Prop} (hI : Stable I) {line : Text} {screen : Screen} {turn : Session × Session}
    (hs : I s) (hturn : turn ∈ answerTurns line s screen) : I turn.1 ∧ I turn.2 := by
  unfold answerTurns at hturn
  dsimp only at hturn
  split at hturn
  case h_1 =>
    split at hturn
    · exact numberedTurns_keep (fun a : Action => toggleIgnored_keeps hI a.key) hs hturn
    · cases hturn
  case h_2 =>
    split at hturn
    · exact numberedTurns_keep (fun key => hI.ignores _ (.remove key)) hs hturn
    · cases hturn
  case h_3 =>
    split at hturn
    · exact numberedTurns_keep (fun key => hI.ignoresRoutes _ (.remove key)) hs hturn
    · cases hturn
  case h_4 =>
    split at hturn
    · exact numberedTurns_keep (ignoreRoute_keeps hI) hs hturn
    · cases hturn
  all_goals cases hturn

/-! ## Answers -/

theorem stillHas_of_keeps {x : Dialog Next} {P : Prop} (h : ∀ disk, Keeps (·.disk = disk) (fun _ => True) x)
    (he : s.disk.root.find? place = some e) :
    (left (x s)).disk.root.StillHas place e ∨ (∀ inside, e ≠ .folder inside) ∧ P := by
  have hdisk : (left (x s)).disk = s.disk := keeps_left (h s.disk) rfl
  rw [hdisk]
  exact .inl (Dir.stillHas_self he)

/-- A loop after which something is shown. -/
theorem loop_stillHas {act : α → Dialog Unit} (hact : ∀ a, Turning (act a)) (rest : Text) (items : List α)
    {x : Dialog Next} (hx : ∀ disk, Keeps (·.disk = disk) Plain x) (he : s.disk.root.find? place = some e) :
    (left ((forNumbered rest items act >>= fun _ => x) s)).disk.root.StillHas place e ∨
      (∀ inside, e ≠ .folder inside) ∧ ∃ turn ∈ numberedTurns rest items act s, SavesAt turn place := by
  rw [disk_bind fun _ disk => (hx disk).trivial]
  exact forNumbered_stillHas hact rest items he

/-- Marking and showing change no files. -/
theorem forActions_disk (rest : Text) {act : Action → Dialog Unit}
    (hact : ∀ disk a, Keeps (·.disk = disk) (fun _ => True) (act a)) (disk : Disk) :
    Keeps (·.disk = disk) (fun _ => True) (forActions rest act) :=
  keeps_get fun _ _ => (forNumbered_keeps rest fun a _ => hact disk a).bind fun _ _ =>
    (actionList_keeps (quiet_disk disk)).trivial

theorem toggleMark_disk (disk : Disk) (key : Text) : Keeps (·.disk = disk) (fun _ => True) (toggleMark key) := by
  refine keeps_modify fun t ht => ?_
  exact ht

theorem actionCommand_stillHas (line : Text) (he : s.disk.root.find? place = some e) :
    (left (actionCommand line s)).disk.root.StillHas place e ∨
      (∀ inside, e ≠ .folder inside) ∧ ∃ turn ∈ answerTurns line s .actions, SavesAt turn place := by
  have hlist : ∀ disk, Keeps (·.disk = disk) Plain actionList := fun disk => actionList_keeps (quiet_disk disk)
  unfold actionCommand
  dsimp only
  split
  · exact stillHas_of_keeps (fun disk => (mainMenu_keeps (quiet_disk disk)).trivial) he
  · split
    · exact stillHas_of_keeps (fun disk => (filterMenu_keeps (quiet_disk disk)).trivial) he
    · split
      · exact stillHas_of_keeps (fun disk => (announceDeletion_keeps (quiet_disk disk) .actions).trivial) he
      · split
        · exact stillHas_of_keeps (forActions_disk _ fun disk a => toggleMark_disk disk a.key) he
        · split
          · rename_i hverb
            have hturns : answerTurns line s .actions = numberedTurns (command (orProposed line "b")).2 s.visible
                (fun a => toggleIgnored a.key) s := if_pos hverb
            rw [hturns]
            have hloop := loop_stillHas (fun a : Action => toggleIgnored_turning a.key)
              (command (orProposed line "b")).2 s.visible hlist he
            exact hloop
          · split
            · exact stillHas_of_keeps (forActions_disk _ fun disk a => showReferences_keeps (quiet_disk disk) a) he
            · exact stillHas_of_keeps (fun disk => (unknownCommand_keeps (quiet_disk disk) _).bind fun _ _ =>
                (hlist disk).trivial) he

theorem routeCommand_stillHas (scan : RouteScan) (line : Text) (he : s.disk.root.find? place = some e) :
    (left (routeCommand scan line s)).disk.root.StillHas place e ∨
      (∀ inside, e ≠ .folder inside) ∧ ∃ turn ∈ answerTurns line s (.routes scan), SavesAt turn place := by
  have hlist : ∀ disk, Keeps (·.disk = disk) Plain (routeList scan) := fun disk => routeList_keeps (quiet_disk disk) scan
  have hremoval : ∀ paths disk, Keeps (·.disk = disk) (fun _ => True) (announceRemoval scan paths) := fun paths disk =>
    announceRemoval_keeps (quiet_disk disk) scan paths (fun _ _ => .intro) fun _ _ _ => .intro
  show (left ((if _ then _ else _ : Dialog Next) s)).disk.root.StillHas place e ∨ _
  split
  · exact stillHas_of_keeps (fun disk => (mainMenu_keeps (quiet_disk disk)).trivial) he
  · split
    · rename_i hverb
      have hturns : answerTurns line s (.routes scan) = numberedTurns (command (orProposed line "b")).2
          (s.openRoutes scan) ignoreRoute s := if_pos hverb
      rw [hturns]
      exact loop_stillHas ignoreRoute_turning _ (s.openRoutes scan) hlist he
    · split
      · exact stillHas_of_keeps (fun disk => (ignoredRouteList_keeps (quiet_disk disk) scan).trivial) he
      · split
        · exact stillHas_of_keeps (hremoval _) he
        · split
          · exact stillHas_of_keeps (fun disk => (keeps_need _).bind fun _ _ => hremoval _ disk) he
          · exact stillHas_of_keeps (fun disk => (unknownCommand_keeps (quiet_disk disk) _).bind fun _ _ =>
              (hlist disk).trivial) he

/-- A command at a list of ignored keys saves the list as keys are taken from it. -/
theorem ignoredCommand_stillHas {keys : List Value} {remove : Value → Dialog Unit} {again leave : Dialog Next} {line : Text}
    (hremove : ∀ key, Turning (remove key)) (hagain : ∀ disk, Keeps (·.disk = disk) Plain again)
    (hleave : ∀ disk, Keeps (·.disk = disk) Plain leave) (he : s.disk.root.find? place = some e) :
    (left (ignoredCommand keys remove again leave line s)).disk.root.StillHas place e ∨ (∀ inside, e ≠ .folder inside) ∧
      ∃ turn ∈ if (command (orProposed line "b")).1 = "u" then
        numberedTurns (command (orProposed line "b")).2 keys remove s else [], SavesAt turn place := by
  unfold ignoredCommand
  dsimp only
  split
  · exact loop_stillHas hremove _ keys hagain he
  · exact stillHas_of_keeps (fun disk => (hleave disk).trivial) he

/-- Where a plain question is answered, and not by saving the result, everything stays in place but files and links where
a list of ignored keys is saved. -/
theorem answer_stillHas {screen : Screen} (hplain : Plain (.ask screen)) (hresult : screen ≠ .resultFile) (line : Text)
    (he : s.disk.root.find? place = some e) : (left (answer line screen s)).disk.root.StillHas place e ∨
      (∀ inside, e ≠ .folder inside) ∧ ∃ turn ∈ answerTurns line s screen, SavesAt turn place := by
  cases hplain with
  | mainMenu =>
    exact stillHas_of_keeps (fun disk => keeps_get fun t _ => (withOption_keeps (quiet_disk disk) (.inl .mainMenu) _ line
      (choose_keeps (quiet_disk disk))).trivial) he
  | actions => exact actionCommand_stillHas line he
  | filterMenu =>
    refine stillHas_of_keeps (fun disk => withOption_keeps (quiet_disk disk) .intro _ line fun filter => ?_) he
    refine Keeps.bind (keeps_modify fun t ht => ?_) fun _ _ => (actionList_keeps (quiet_disk disk)).trivial
    exact ht
  | ignoredActions =>
    exact ignoredCommand_stillHas (fun key => changeIgnored_turning (.remove key))
      (fun disk => ignoredActionList_keeps (quiet_disk disk)) (fun disk => mainMenu_keeps (quiet_disk disk)) he
  | ignoredRoutes scan =>
    exact ignoredCommand_stillHas (fun key => changeIgnoredRoutes_turning (.remove key))
      (fun disk => ignoredRouteList_keeps (quiet_disk disk) scan) (fun disk => routeList_keeps (quiet_disk disk) scan) he
  | resultFile => exact absurd rfl hresult
  | routes scan => exact routeCommand_stillHas scan line he

end Dialog

end ActionSweep

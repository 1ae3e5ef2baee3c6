/-
Small projects. They show that what is said about scans is said about scans that happen, and what
happens where its assumptions fail.
-/
import ActionSweep.Proofs.Settings.Standard

namespace ActionSweep.Sample

def project : Path := ⟨.root, ["p"]⟩

/-- A file with a text. -/
def file (name content : Text) (rest : Dir) : Dir := .file name (Utf8.encode content) rest

/-- Two actions: `/api/a` calls `lib/b`, which calls one that does not exist. -/
def app : Dir :=
  .folder "api" (file "a.json" "\x7b\"exec\": \"b\"\x7d" .empty)
    (.folder "lib" (file "b.json" "\x7b\"exec\": \"c\"\x7d" .empty) .empty)

def tree : Dir := .folder "app" app .empty

def disk : Disk := ⟨.folder "p" tree .empty, [], "/"⟩

def scanner : Scanner := .new project ScanSettings.standardConfig

/-! ## A project below an action folder -/

/-- A project two folders below the root, whose only action folder is the root. -/
def inner : Scanner := .new ⟨.root, ["m", "p"]⟩ { ScanSettings.standardConfig with actionDirs := .ok ["/"] }

/-- The tree of a project that holds what is given in the folder of API actions, and nothing else. -/
def apiTree (api : Dir) : Dir := .folder "app" (.folder "api" api .empty) .empty

def innerDisk (api : Dir) : Disk := ⟨.folder "m" (.folder "p" (apiTree api) .empty) .empty, [], "/"⟩

def oneAction : Dir := file "a.json" "\x7b\"exec\": \"b\"\x7d" .empty

/-! ## A project with a routing table -/

/-- A project with a folder of API actions and a routing table. -/
def routedDisk (api : Dir) (table : Text) : Disk :=
  ⟨.folder "p" (.folder "app" (.folder "api" api (.folder "config" (file "routes.json" table .empty) .empty)) .empty)
    .empty, [], "/"⟩

/-- A routing table with one route. -/
def oneRoute (exec : Text) : Text :=
  "\x7b\"routes\": [\x7b\"path\": \"/r\", \"exec\": \"" ++ exec ++ "\"\x7d]\x7d"

/-! ## A project with a dead route -/

/-- A project with a folder of settings, and one of views that is empty. -/
def settingsDisk (settings : Dir) : Disk :=
  ⟨.folder "p" (.folder "app" (.folder "config" settings .empty) (.folder "views" .empty .empty)) .empty, [], "/"⟩

def table : RouteTable := .new project "app/config/routes.json"

/-- A routing table with a route to a page, and a route with a path that names no file. -/
def twoRoutes (page path : Text) : Text :=
  "\x7b\"routes\": [\x7b\"path\": \"/r\", \"page\": \"" ++ page ++ "\"\x7d, \x7b\"path\": \"" ++ path ++ "\"\x7d]\x7d"

/-- That table, for a page that does not exist, and what is given beside it. -/
def deadRouteDisk (path : Text) (beside : Dir) : Disk := settingsDisk (file "routes.json" (twoRoutes "x" path) beside)

/-! ## A project whose files name its action -/

/-- A project with one action, and with what is given in a folder of jobs and in that of views. -/
def namedTree (jobs views : Dir) : Dir :=
  .folder "app" (.folder "api" oneAction (.folder "jobs" jobs .empty)) (.folder "views" views .empty)

def namedDisk (jobs views : Dir) : Disk := ⟨.folder "p" (namedTree jobs views) .empty, [], "/"⟩

def queue : Dir := file "q.json" "[\x7b\"api_file\": \"/app/api/a.json\"\x7d]" .empty

def page : Text := "<a href=\"/api/a?b\">"

def call : Text := "fetch(\x60/api/a\x60)"

def literal : Dir := file "p.html" page (file "s.js" call .empty)

/-- The files that name the action. -/
def namingFiles : List Text := ["views/p.html", "app/jobs/q.json", "views/s.js"]

/-- The first project with a page more, in a folder that it did not have. -/
def grownTree : Dir := .folder "app" app (.folder "views" (file "p.html" page .empty) .empty)

def grownDisk : Disk := ⟨.folder "p" grownTree .empty, [], "/"⟩

/-- A script below a folder that is named like a page. -/
def hidden : Dir := .folder "a.ejs" (file "s.js" call .empty) .empty

/-! ## A project with files that cannot be used -/

/-- One that is no document, and one that nests too deep to be searched. -/
def useless : Dir := file "b.json" "x" (.file "c.json" (List.replicate 66 0x5b ++ List.replicate 66 0x5d) .empty)

def uselessTree : Dir := apiTree (file "a.json" "\x7b\"exec\": \"b\"\x7d" useless)

def uselessDisk : Disk := ⟨.folder "p" uselessTree .empty, [], "/"⟩

/-- The first project with a file more, which is cut off in the middle. -/
def brokenTree : Dir :=
  .folder "app" (.folder "api" (file "a.json" "\x7b\"exec\": \"b\"\x7d" (file "c.json" "\x7b\"exec\": " .empty))
    (.folder "lib" (file "b.json" "\x7b\"exec\": \"c\"\x7d" .empty) .empty)) .empty

def brokenDisk : Disk := ⟨.folder "p" brokenTree .empty, [], "/"⟩

/-- A project with one file that opens too many brackets. -/
def deepTree : Dir := apiTree (.file "a.json" (List.replicate 961 0x5b) .empty)

def deepDisk : Disk := ⟨.folder "p" deepTree .empty, [], "/"⟩

/-! ## A project with a folder of actions of its own choice -/

def elsewhereScanner : Scanner := .new project { ScanSettings.standardConfig with actionDirs := .ok ["server/api"] }

/-- Its only action is named by the path of its file in another file. -/
def elsewhereTree : Dir :=
  .folder "app" (file "q.json" "[\x7b\"exec\": \"server/api/a\"\x7d, \x7b\"exec\": \"/server/api/a\"\x7d]" .empty)
    (.folder "server" (.folder "api" oneAction .empty) .empty)

def elsewhereDisk : Disk := ⟨.folder "p" elsewhereTree .empty, [], "/"⟩

/-! ## A project with folders that hold no file -/

/-- What is given in the folder of API actions, and beside it a folder that holds one that holds one. -/
def foldersTree (api : Dir) : Dir :=
  .folder "app" (.folder "api" api .empty) (.folder "other" (.folder "t" (.folder "s" .empty .empty) .empty) .empty)

def foldersDisk (api : Dir) : Disk := ⟨.folder "p" (foldersTree api) .empty, [], "/"⟩

/-- The folders that are searched there. -/
def searched : List Text := ["app/api", "other"]

/-- A name that is longer than any name of a folder. -/
def longName : Text := List.replicate 300 'x'

/-- The path of a folder among the API actions. -/
def oneFolder : Text := "/p/app/api/e"

/-- That folder alone, and empty. -/
def oneEmpty : Dir := .folder "e" .empty .empty

/-- A file, a folder that holds another one, and a link to it. -/
def mixed : Dir := file "a.json" "x" (.folder "e" (.folder "f" .empty .empty) (.link "l" "e" .empty))

def mixedTree : Dir := foldersTree mixed

def mixedDisk : Disk := foldersDisk mixed

/-- The folders that hold no file there. -/
def mixedFolders : List EmptyFolder :=
  [⟨"/p/app/api/e/f", "app/api/e/f"⟩, ⟨"/p/app/api/e", "app/api/e"⟩,
    ⟨"/p/other/t/s", "other/t/s"⟩, ⟨"/p/other/t", "other/t"⟩]

/-- Paths to what is in the folder of API actions, in no order, one of them twice, and to nothing. -/
def mixedPaths : List Text :=
  ["/p/app/api/e", "/p/app/api/l", "/p/app/api/e/f/", "/p/app/api/a.json", "/p/app", "/p/x", "/p/app/api/e"]

/-- A folder, in which a file and another folder were put. -/
def filledDisk : Disk := foldersDisk (.folder "e" (file "a" "x" (.folder "f" .empty .empty)) .empty)

/-- A link to the other folder in the place of that folder. -/
def replacedDisk : Disk := foldersDisk (.link "e" "../../other/t" .empty)

end ActionSweep.Sample

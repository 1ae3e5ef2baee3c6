import ActionSweep.Files.Disk

/-
Whether a file is text: by its name where the name tells, otherwise by its first bytes. Folders and
links are not.
-/

namespace ActionSweep.FileKind

/-- Extensions of text files. -/
def textExtensions : List String :=
  ["adoc", "aj", "apinotes", "asciidoc", "asm", "astro", "avsc", "bash", "bat", "bats", "bazel",
   "bb", "bbappend", "bbclass", "beancount", "bib", "bzl", "c", "c++", "c++m", "cc", "ccm",
   "cfg", "chs", "cjs", "clj", "cljc", "cljs", "cmake", "cmd", "cnf", "coffee", "conf", "cpp",
   "cppm", "cr", "crt", "cs", "csh", "cson", "csproj", "css", "csv", "csx", "cu", "cue", "cuh",
   "cxx", "cxxm", "cylc", "dart", "dbc", "def", "diff", "dtd", "edn", "ejs", "ejson", "elm",
   "env", "erb", "erl", "escript", "ex", "exs", "eyaml", "f03", "f08", "f90", "f95", "feature",
   "fish", "fs", "fsproj", "fsx", "gd", "gemspec", "geojson", "gleam", "gml", "go", "gotmpl",
   "gpx", "gql", "gradle", "graphql", "groovy", "gsh", "gvy", "gy", "gyb", "gyp", "gypi", "h",
   "hbs", "hcl", "hh", "hpp", "hrl", "hs", "htm", "html", "hxx", "ics", "idl", "idr", "inc",
   "ini", "inl", "ino", "inx", "ipxe", "ipynb", "ixx", "j2", "jade", "java", "jenkins",
   "jenkinsfile", "jinja", "jinja2", "jl", "js", "json", "json5", "jsonld", "jsonnet", "jsx",
   "key", "kml", "kt", "kts", "lean", "lektorproject", "less", "lfm", "lhs", "libsonnet", "lidr",
   "liquid", "lpi", "lpr", "lr", "lua", "m", "m4", "magik", "make", "manifest", "map",
   "markdown", "md", "mdx", "meson", "metal", "mib", "mjs", "mk", "ml", "mli", "mm", "modulemap",
   "mof", "mscx", "mustache", "myst", "ngdoc", "nim", "nimble", "nims", "nix", "njk", "pas",
   "patch", "pem", "php", "php4", "php5", "phtml", "pl", "plantuml", "pm", "po", "pom", "pp",
   "prisma", "properties", "props", "proto", "ps1", "psd1", "psm1", "pug", "puml", "purs", "pxd",
   "pxi", "py", "pyi", "pyproj", "pyt", "pyx", "qml", "r", "rake", "rb", "resx", "rng", "rs",
   "rst", "s", "sas", "sass", "sbt", "sc", "scala", "scm", "scss", "sh", "sln", "sls", "sol",
   "spec", "sql", "ss", "sty", "styl", "sv", "svelte", "svg", "svh", "swift", "swiftdeps", "tac",
   "targets", "templ", "tex", "textproto", "tf", "tfvars", "thrift", "toml", "ts", "tsv", "tsx",
   "twig", "txsprofile", "txt", "txtpb", "urdf", "v", "vb", "vbproj", "vcxproj", "vdx", "vh",
   "vhd", "vim", "vtl", "vue", "wkt", "wsdl", "wsgi", "xacro", "xaml", "xctestplan", "xhtml",
   "xliff", "xml", "xq", "xql", "xqm", "xqu", "xquery", "xqy", "xsd", "xsl", "xslt", "yaml",
   "yamlld", "yang", "yin", "yml", "zcml", "zig", "zpt", "zsh"]

/-- Extensions of files that are not text. -/
def binaryExtensions : List String :=
  ["ai", "asar", "avif", "bmp", "bz2", "bz3", "dll", "ear", "eot", "eps", "exe", "fits", "ggb",
   "gif", "gz", "icns", "ico", "jar", "jpeg", "jpg", "mscz", "otf", "p12", "pdf", "png", "pyz",
   "pyzw", "so", "swf", "tar", "tgz", "tif", "tiff", "ttf", "war", "wav", "webp", "whl", "woff",
   "woff2", "zip"]

/-- Names of text files, which also tell as a part of a name between dots. -/
def textNames : List String :=
  [".ansible-lint", ".babelrc", ".bash_aliases", ".bash_profile", ".bashrc", ".bazelrc",
   ".bowerrc", ".browserslistrc", ".clang-format", ".clang-tidy", ".codespellrc", ".coveragerc",
   ".cshrc", ".csslintrc", ".dockerignore", ".editorconfig", ".envrc", ".eslintrc", ".flake8",
   ".gitattributes", ".gitconfig", ".gitignore", ".gitlint", ".gitmodules", ".hgrc",
   ".isort.cfg", ".jshintrc", ".mailmap", ".mention-bot", ".npmignore", ".pdbrc",
   ".prettierignore", ".profile", ".pypirc", ".rstcheck.cfg", ".salt-lint", ".yamllint",
   ".zlogin", ".zlogout", ".zprofile", ".zshenv", ".zshrc", "AUTHORS", "BUILD", "BUILD.bazel",
   "Brewfile", "CHANGELOG", "CMakeLists.txt", "CONTRIBUTING", "COPYING", "Cargo.lock",
   "Cargo.toml", "Containerfile", "DESCRIPTION", "Dockerfile", "Fastfile", "GNUmakefile",
   "Gemfile", "Gemfile.lock", "Jenkinsfile", "LICENSE", "MAINTAINERS", "Makefile", "NEWS",
   "NOTICE", "PATENTS", "PKGBUILD", "Pipfile", "Pipfile.lock", "README", "Rakefile",
   "SConscript", "SConstruct", "Tiltfile", "Vagrantfile", "WORKSPACE", "bblayers.conf",
   "bitbake.conf", "config.ru", "copy.bara.sky", "direnvrc", "go.mod", "go.sum", "makefile",
   "meson.build", "meson_options.txt", "poetry.lock", "pom.xml", "pylintrc", "rebar.config",
   "setup.cfg", "sys.config", "sys.config.src", "uv.lock", "wscript"]

/-- The extension of a file name, in small letters. Dots at the beginning start no extension. -/
def extension (name : Text) : Text :=
  let body := name.dropWhile (· = '.')
  if body.contains '.' then Text.lower (body.reverse.takeWhile (· ≠ '.')).reverse else []

/-- Whether a name stands in a table. -/
def listed (table : List String) (name : Text) : Bool := table.any fun s => s.toList = name

/-- What a name tells: text, not text, or nothing. -/
def ofName (name : Text) : Option Bool :=
  if (name :: name.split '.').any (listed textNames) || listed textExtensions (extension name) then
    some true
  else if listed binaryExtensions (extension name) then some false
  else none

/-- Bytes of text: printing characters, bytes above ASCII, and the controls from bell to carriage
return and escape. -/
def isTextByte (b : UInt8) : Bool :=
  (7 ≤ b && b ≤ 13) || b = 27 || (0x20 ≤ b && b ≤ 0x7e) || 0x80 ≤ b

/-- How many bytes are looked at. -/
def sampleSize : Nat := 1024

/-- Whether a file with a name and a content is text. -/
def isText (name : Text) (bytes : Bytes) : Bool :=
  (ofName name).getD ((bytes.take sampleSize).all isTextByte)

/-- What follows the last slash of a path. -/
def baseName (path : Text) : Text := (path.reverse.takeWhile (· ≠ '/')).reverse

/-- Whether there is a text file at a path. -/
def isTextFile (disk : Disk) (path : Text) : Bool :=
  match disk.resolve .entry path with
  | .ok (.found _ (.file bytes)) => isText (baseName path) bytes
  | _ => false

end ActionSweep.FileKind

import ActionSweep.Text.Basic

/-
References: what a file says that may name a server action, before any key is worked out.
-/

namespace ActionSweep

/-- Where in a file a reference stands. -/
inductive Provenance
  | markupUrlAttribute
  | markupActionAttribute
  | embeddedUrl
  | templateUrl
  | queueFileField
  | execField
  | moduleField
  | scriptFetchCall
  | scriptAjaxUrl
deriving Repr, DecidableEq

namespace Provenance

/-- The name of a provenance in reports. -/
def label : Provenance → Text
  | markupUrlAttribute => "markup-url-attribute"
  | markupActionAttribute => "markup-action-attribute"
  | embeddedUrl => "embedded-url-string"
  | templateUrl => "template-url-string"
  | queueFileField => "queue-file-field"
  | execField => "exec-field"
  | moduleField => "module-field"
  | scriptFetchCall => "script-fetch-call"
  | scriptAjaxUrl => "script-ajax-url"

def all : List Provenance :=
  [markupUrlAttribute, markupActionAttribute, embeddedUrl, templateUrl, queueFileField, execField,
   moduleField, scriptFetchCall, scriptAjaxUrl]

/-- The provenance of a name. -/
def ofLabel? (t : Text) : Option Provenance := all.find? fun p => p.label = t

end Provenance

/-- A text found in a file, and where in the file it stands. -/
structure RawReference where
  path : Text
  provenance : Provenance
deriving Repr, DecidableEq

end ActionSweep

/-!
# Choices

The closed choices a run can be given: the output format, the way in which the
further names of a grouped page are linked, and the kinds of documented objects.
Each has a one-letter flag.
-/

namespace DeclManual

/-- The output format of the rendered pages. -/
inductive OutputFormat where
  | nroff
  | latex
  | html
  | texinfo
  | autodoc
deriving DecidableEq, Repr, Inhabited

namespace OutputFormat

/-- The formats in the order in which they are listed. -/
def all : List OutputFormat := [nroff, latex, html, texinfo, autodoc]

/-- The one-letter flag of a format. -/
def flag : OutputFormat -> Char
  | nroff => 'n'
  | latex => 'l'
  | html => 'h'
  | texinfo => 't'
  | autodoc => 'a'

/-- The format of a one-letter flag. -/
def ofFlag? (flag : Char) : Option OutputFormat :=
  all.find? (·.flag == flag)

/-- The name of a format. -/
def name : OutputFormat -> String
  | nroff => "nroff"
  | latex => "latex"
  | html => "html"
  | texinfo => "texinfo"
  | autodoc => "autodoc"

/-- The format of a name. -/
def ofName? (name : String) : Option OutputFormat :=
  all.find? (·.name == name)

/-- The manual section, and file extension, used when none is configured. -/
def defaultSection : OutputFormat -> String
  | nroff => "3"
  | latex => "tex"
  | html => "html"
  | texinfo => "texi"
  | autodoc => "doc"

/-- Every format is found by its flag. -/
theorem ofFlag?_flag (format : OutputFormat) : ofFlag? format.flag = some format := by
  cases format <;> rfl

end OutputFormat

/-- How the further names of a grouped page appear on disk. -/
inductive LinkPolicy where
  | hard
  | soft
  /-- A stub file that includes the page. -/
  | file
  | none
  /-- Only stale files of an earlier run are removed. -/
  | remove
deriving DecidableEq, Repr, Inhabited

namespace LinkPolicy

/-- The policies in the order in which they are listed. -/
def all : List LinkPolicy := [hard, soft, file, none, remove]

/-- The one-letter flag of a policy. -/
def flag : LinkPolicy -> Char
  | hard => 'h'
  | soft => 's'
  | file => 'f'
  | none => 'n'
  | remove => 'r'

/-- The policy of a one-letter flag. -/
def ofFlag? (flag : Char) : Option LinkPolicy :=
  all.find? (·.flag == flag)

/-- The name of a policy. -/
def name : LinkPolicy -> String
  | hard => "hard"
  | soft => "soft"
  | file => "file"
  | none => "none"
  | remove => "remove"

/-- The policy of a name. -/
def ofName? (name : String) : Option LinkPolicy :=
  all.find? (·.name == name)

/-- Every policy is found by its flag. -/
theorem ofFlag?_flag (policy : LinkPolicy) : ofFlag? policy.flag = some policy := by
  cases policy <;> rfl

end LinkPolicy

/-- The kind of a documented object, which selects the place of its page. -/
inductive ObjectKind where
  | function
  | dataObject
  | staticFunction
  | staticVariable
deriving DecidableEq, Repr, Inhabited

namespace ObjectKind

/-- The kinds in the order in which they are listed. -/
def all : List ObjectKind := [function, dataObject, staticFunction, staticVariable]

/-- The one-letter flag of a kind. -/
def flag : ObjectKind -> Char
  | function => 'f'
  | dataObject => 'v'
  | staticFunction => 'F'
  | staticVariable => 'V'

/-- The kind of a one-letter flag. -/
def ofFlag? (flag : Char) : Option ObjectKind :=
  all.find? (·.flag == flag)

/-- The kind in words. -/
def description : ObjectKind -> String
  | function => "function"
  | dataObject => "variable"
  | staticFunction => "static function"
  | staticVariable => "static variable"

/-- The kind as one word. -/
def name : ObjectKind -> String
  | function => "function"
  | dataObject => "variable"
  | staticFunction => "static_function"
  | staticVariable => "static_variable"

/-- The kind of a declaration. -/
def classify (isFunction isStatic : Bool) : ObjectKind :=
  match isFunction, isStatic with
  | true, false => function
  | true, true => staticFunction
  | false, false => dataObject
  | false, true => staticVariable

/-- Every kind is found by its flag. -/
theorem ofFlag?_flag (kind : ObjectKind) : ofFlag? kind.flag = some kind := by
  cases kind <;> rfl

end ObjectKind
end DeclManual

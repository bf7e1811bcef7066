import DeclManual.Session.ManualPage

/-!
# Identical parameters of a group

On a grouped page each of several identically declared parameters is described
once.  Every two such parameters on different pages are compared: if only the
later one has a comment the earlier is hidden; if their comments differ both are
shown with the names of their functions; and otherwise the later is hidden.
-/

namespace DeclManual
namespace Page

open Decl

/-- Compares a parameter with one on a later page. -/
def markPair (earlier later : Parameter) : Parameter × Parameter :=
  if !earlier.isIdentical later then (earlier, later)
  else
    match earlier.comment, later.comment with
    | none, some _ => ({ earlier with suppress := true }, later)
    | some ours, some theirs =>
      if ours = theirs then (earlier, { later with suppress := true })
      else ({ earlier with duplicate := true }, { later with duplicate := true })
    | _, none => (earlier, { later with suppress := true })

/-- Compares a parameter with those of one later page. -/
def markAlong (earlier : Parameter) : List Parameter -> Parameter × List Parameter
  | [] => (earlier, [])
  | later :: rest =>
    let (earlier, later) := markPair earlier later
    let (earlier, rest) := markAlong earlier rest
    (earlier, later :: rest)

/-- Compares a parameter with those of all later pages. -/
def markAcross (earlier : Parameter) : List (List Parameter) -> Parameter × List (List Parameter)
  | [] => (earlier, [])
  | page :: pages =>
    let (earlier, page) := markAlong earlier page
    let (earlier, pages) := markAcross earlier pages
    (earlier, page :: pages)

/-- Compares the parameters of a page with those of all later pages. -/
def markPage : List Parameter -> List (List Parameter) -> List Parameter × List (List Parameter)
  | [], pages => ([], pages)
  | parameter :: rest, pages =>
    let (parameter, pages) := markAcross parameter pages
    let (rest, pages) := markPage rest pages
    (parameter :: rest, pages)

/-- Compares the parameters of the first `count` pages with those of later ones. -/
def markPages : (count : Nat) -> List (List Parameter) -> List (List Parameter)
  | 0, pages => pages
  | _ + 1, [] => []
  | count + 1, page :: pages =>
    let (page, pages) := markPage page pages
    page :: markPages count pages

/-- The parameters of a page that take part: those of a declaration that takes
parameters. -/
def comparedParameters (page : ManualPage) : List Parameter :=
  if page.declarator.hasParameters then page.declarator.headParameters else []

/-- The page with marked parameters. -/
def withParameters (page : ManualPage) (parameters : List Parameter) : ManualPage :=
  if page.declarator.hasParameters then
    { page with declarator := page.declarator.updateHead fun _ => parameters }
  else page

/-- Marks identical parameters across pages. -/
def markDuplicates (pages : List ManualPage) : List ManualPage :=
  pages.zipWith withParameters (markPages pages.length (pages.map comparedParameters))

/-- Whether any parameter of some pages has something to show. -/
def anyDocumented (pages : List ManualPage) (always : Bool) : Bool :=
  pages.any fun page => page.declarator.hasDocumentedParameters always

end Page
end DeclManual

import DeclManual.Proofs.Grammar.Fork

/-!
# Declarations before a bracket

Specifiers, declarators and whole declarations do not see past a brace that they do not
take.  Where they look further ahead than the next token, they do so only after tokens
that are no brace.  Past a parenthesis that they do not take they see at most the token
after it.
-/

namespace DeclManual
namespace Grammar
namespace Fork

open Decl
open Source (Token)

variable {fork : Fork} {first second : Cursor}

/-! ## Looking ahead -/

/-- A word is not the bracket. -/
theorem ne_opener_of_isWord
    {token : Token}
    (isWord : token.isWord = true) :
    token ≠ fork.opener := by
  rintro rfl
  rw [Token.isWord, fork.isMark] at isWord
  contradiction

/-- A token with another text is not the bracket. -/
theorem ne_opener_of_hasText
    {token : Token}
    {text : String}
    (hasText : token.hasText text = true)
    (noBracket : isOpener text = false) :
    token ≠ fork.opener := by
  rintro rfl
  exact bracket_ne noBracket (Token.text_of_hasText hasText)

/-- At a parenthesis that is no fork, or one past which the next token may be seen. -/
theorem ne_opener_of_parenthesis
    {token : Token}
    (opens : token.hasText "(" = true) :
    token ≠ fork.opener ∨ fork.here.head? = fork.there.head? := by
  rcases fork.isBracket with isBrace | ⟨-, sameNext⟩
  · refine .inl ?_
    rintro rfl
    have isText := Token.text_of_hasText opens
    rw [fork.isBrace, isBrace] at isText
    exact absurd isText (by decide)
  · exact .inr sameNext

namespace Twins

/-- Whether a type is named is seen in the tokens up to the bracket. -/
theorem namesType
    (twins : fork.Twins first second)
    (context : Context)
    (isWord : first.peek.isWord = true) :
    namesType context second = namesType context first := by
  have before := @ne_opener_of_isWord fork _ isWord
  unfold Grammar.namesType
  cases context with
  | parameter => rfl
  | declaration =>
      dsimp only
      rw [twins.peekNth_one (.inl before)]
      by_cases opens : (first.peekNth 1).hasText "(" = true
      · rw [twins.peekNth_two before (ne_opener_of_parenthesis opens)]
      · simp [opens]

/-- What a word means is seen in the tokens up to the bracket. -/
theorem meaningAt
    (twins : fork.Twins first second)
    (context : Context)
    (seenType : Bool)
    (isWord : first.peek.isWord = true) :
    meaningAt context seenType second = meaningAt context seenType first := by
  unfold Grammar.meaningAt
  rw [twins.peek, twins.peekNth_one (.inl (ne_opener_of_isWord isWord)), twins.session,
    twins.namesType context isWord]

/-- Whether a parenthesis opens a declarator is seen in the tokens up to the bracket. -/
theorem opensNested
    (twins : fork.Twins first second)
    (opens : first.peek.hasText "(" = true) :
    opensNested second = opensNested first := by
  unfold Grammar.opensNested
  rw [twins.peekNth_one (ne_opener_of_parenthesis opens), twins.session]

end Twins

/-- Whether an identifier list is followed by a body is seen without looking past the
bracket. -/
theorem identifierListRun_same
    (session : Session)
    (front : List Token) :
    identifierListRun session (front ++ fork.opener :: fork.there) =
      identifierListRun session (front ++ fork.opener :: fork.here) := by
  have noWord : fork.opener.isWord = false := by
    rw [Token.isWord, fork.isMark]
    rfl
  have atBrace (rest : List Token) : identifierListRun session (fork.opener :: rest) = false := by
    cases rest <;> simp [identifierListRun, noWord]
  induction front using List.twoStepInduction with
  | nil => rw [List.nil_append, List.nil_append, atBrace, atBrace]
  | singleton name =>
      have noComma : fork.opener.text ≠ "," := bracket_ne (by decide)
      have noCloser : fork.opener.text ≠ ")" := bracket_ne (by decide)
      simp [identifierListRun, Token.hasText, noComma, noCloser]
  | cons_cons name separator front hypothesis _ =>
      simp only [List.cons_append, identifierListRun, hypothesis]
      cases front <;> rfl

namespace Blind

/-! ## Specifiers -/

theorem optionalTag : fork.Blind optionalTag :=
  .bind .peek fun _ => .ite (.bind .take fun _ => .pure _) (.pure _)

theorem recordSpecifier : fork.Blind recordSpecifier := by
  refine .bind .take fun keyword => .bind skipAttributes fun _ => .bind optionalTag fun tag => ?_
  exact .bind (skipGroup _ _) fun _ => .bind skipAttributes fun _ => .pure _

theorem trailingComments (separator : String) : fork.Blind (trailingComments separator) := by
  refine .get_bind (fun cursor => ?_) fun twins => ?_
  · exact .bind .peek fun next => .bind (.accept separator) fun token => .pure _
  · rw [Cursor.trailingComment, twins.previous, Cursor.trailingComment]

/-- Giving comments to an enumerator does not see past the bracket. -/
theorem commentEnumerator
    (list : ListId)
    (comments : List String) :
    fork.Blind (commentEnumerator list comments) := by
  induction comments with
  | nil => exact .pure ()
  | cons comment comments hypothesis =>
      rw [commentEnumerator_cons]
      exact .bind (.discard (.act _)) fun _ => hypothesis

/-- Adding an enumerator does not see past the bracket. -/
theorem addEnumerator
    (tag : Option String)
    (list : Option ListId)
    (enumerator : Enumerator) :
    fork.Blind (addEnumerator tag list enumerator) := by
  rw [addEnumerator_eq]
  cases list <;> exact .act _

theorem enumeratorName : fork.Blind enumeratorName :=
  .bind .peek fun _ => .ite .take (.fail _)

/-- Whether a separator was taken last. -/
theorem justTook_bind
    {α : Type}
    {text : String}
    {again otherwise : Parse α}
    (took : fork.Blind again)
    (tookNot : fork.Blind otherwise) :
    fork.Blind (get >>= fun cursor => if cursor.justTook text then again else otherwise) := by
  refine .get_bind (fun cursor => .ite took tookNot) fun twins => ?_
  rw [Cursor.justTook, twins.previous, Cursor.justTook]

/-- Reading enumerators does not see past the bracket. -/
theorem enumerators
    (tag : Option String)
    (count : Nat)
    (leading : Option String)
    (list : Option ListId) :
    fork.Blind (enumerators tag count leading list) := by
  induction count generalizing leading list with
  | zero => exact .exhausted
  | succ count hypothesis =>
      rw [enumerators_succ]
      refine .bind (.sees _) fun closes => .ite (.bind (.discard .take) fun _ => .pure _) ?_
      refine .bind enumeratorName fun name => .bind (skipValue (by decide)) fun _ => ?_
      refine .bind (trailingComments _) fun comments => .bind (addEnumerator _ _ _) fun id => ?_
      refine .bind (commentEnumerator _ _) fun _ => justTook_bind (hypothesis _ _) ?_
      exact .bind (.sees _) fun closes => .ite (hypothesis _ _) (.fail _)

/-- Reading an enumerator list does not see past the bracket. -/
theorem enumeratorList (tag : Option String) : fork.Blind (enumeratorList tag) := by
  rw [enumeratorList_eq]
  refine .bind (.expect _) fun opener => ?_
  exact .fuelled (fun count => enumerators tag count opener.commentAfter none)
    (enumerators_refines tag opener.commentAfter none)
    fun input => (enumerators_lands tag _ none input (Nat.le_succ _)).finishes

theorem enumerationList (tag : Option String) : fork.Blind (enumerationList tag) := by
  refine .bind (.sees _) fun opens => .ite (enumeratorList tag) ?_
  exact .get_bind (fun cursor => .pure _) fun twins => by rw [twins.session]

theorem enumSpecifier : fork.Blind enumSpecifier := by
  refine .bind .take fun keyword => .bind skipAttributes fun _ => .bind optionalTag fun tag => ?_
  exact .bind (enumerationList tag) fun list => .pure _

theorem typedefSpecifier : fork.Blind typedefSpecifier := by
  refine .bind .take fun name => ?_
  exact .get_bind (fun cursor => .pure _) fun twins => by rw [twins.session]

/-- Reading specifiers does not see past the bracket. -/
theorem specifiersUpTo
    (context : Context)
    (count : Nat)
    (seenType : Bool)
    (read : Option Specifiers) :
    fork.Blind (specifiersUpTo context count seenType read) := by
  induction count generalizing seenType read with
  | zero => exact .exhausted
  | succ count hypothesis =>
      have word (flags : Flags) : fork.Blind (takeSpecifier flags) :=
        .bind .take fun _ => .pure _
      unfold Grammar.specifiersUpTo
      refine .get_bind (fun cursor => .ite (.pure _) ?_) fun {first second} twins => ?_
      · cases meaningAt context seenType cursor with
        | typedefWord => exact .bind (word _) fun _ => hypothesis _ _
        | modifier flags => exact .bind (word _) fun _ => hypothesis _ _
        | typeWord flags => exact .bind (word _) fun _ => hypothesis _ _
        | extensionWord => exact .bind (.discard .take) fun _ => hypothesis _ _
        | «attribute» => exact .bind skipAttributes fun _ => hypothesis _ _
        | record => exact .bind recordSpecifier fun _ => hypothesis _ _
        | enumeration => exact .bind enumSpecifier fun _ => hypothesis _ _
        | typedefName => exact .bind typedefSpecifier fun _ => hypothesis _ _
        | stop => exact .pure _
      · rw [twins.peek]
        by_cases isWord : first.peek.isWord = true
        · rw [twins.meaningAt context seenType isWord]
        · rw [if_pos (by simpa using isWord), if_pos (by simpa using isWord)]

/-- Reading the specifiers of a declaration does not see past the bracket. -/
theorem declarationSpecifiers (context : Context) : fork.Blind (declarationSpecifiers context) :=
  .fuelled (fun count => specifiersUpTo context count false none)
    (specifiersUpTo_refines context false none)
    fun input => ((specifiersUpTo_takesOr context false none input (Nat.le_succ _)).lands
      input).finishes

/-! ## Declarators -/

/-- Reading a pointer operator does not see past the bracket. -/
theorem pointerTail
    (count : Nat)
    (text : String) :
    fork.Blind (pointerTail count text) := by
  induction count generalizing text with
  | zero => exact .exhausted
  | succ count hypothesis =>
      unfold Grammar.pointerTail
      refine .bind .peek fun next => .bind (.sees _) fun isStar => .ite ?_ (.ite ?_ (.ite ?_ ?_))
      · exact .bind (.discard .take) fun _ => hypothesis _
      · exact .bind (.discard .take) fun _ => hypothesis _
      · exact .bind skipAttributes fun _ => hypothesis _
      · exact .pure _

theorem pointer : fork.Blind pointer := by
  refine .bind (.accept "*") fun star => .ite ?_ (.pure _)
  refine .fuelled_bind (fun count => pointerTail count "*") (pointerTail_refines "*") ?_
    fun text => .pure _
  exact fun input => (pointerTail_lands "*" input (Nat.le_refl _)).finishes

/-- The text of a suffix is that of the tokens taken, which stand before the bracket. -/
theorem bracketText : fork.Blind bracketText where
  leads cursor := by
    have leads := (@skipBalanced fork "[" "]").leads cursor
    unfold Grammar.bracketText
    rw [get_bind_run, bind_run]
    cases result : Grammar.skipBalanced "[" "]" cursor with
    | ok _ after =>
        rw [result] at leads
        exact leads
    | error error after =>
        rw [result] at leads
        exact leads
  agrees {first second} twins ahead := by
    have agree := (@skipBalanced fork "[" "]").agrees twins
    unfold Grammar.bracketText at ahead ⊢
    rw [get_bind_run, bind_run] at ahead ⊢
    rw [get_bind_run, bind_run]
    cases result : Grammar.skipBalanced "[" "]" first with
    | ok _ after =>
        rw [result] at ahead agree
        obtain ⟨other, otherResult, together⟩ := (agree ahead).of_ok
        obtain ⟨front, isFirst, rfl⟩ := twins.apart
        obtain ⟨left, isAfter, isOther⟩ := together.apart
        have taken (rest : List Token) :
            (front ++ fork.opener :: rest).take ((front ++ fork.opener :: rest).length -
              (left ++ fork.opener :: rest).length) = front.take (front.length - left.length) := by
          rw [List.length_append, List.length_append, Nat.add_sub_add_right,
            List.take_append_of_le_length (Nat.sub_le _ _)]
        rw [otherResult]
        simp only [get_bind_run, pure_run, isFirst, isAfter, taken, isOther]
        rw [← isOther]
        exact .ok _ together
    | error error after =>
        rw [result] at ahead agree
        obtain ⟨other, otherResult, together⟩ := (agree ahead).of_error
        rw [otherResult]
        exact .error error together

/-- Reading an identifier list does not see past the bracket. -/
theorem identifierList
    (count : Nat)
    (leading : Option String)
    (parameters : List Parameter) :
    fork.Blind (identifierList count leading parameters) := by
  induction count generalizing leading parameters with
  | zero => exact .exhausted
  | succ count hypothesis =>
      unfold Grammar.identifierList
      refine .bind .take fun name => .bind (trailingComments _) fun comments => ?_
      refine .bind (.act _) fun parameter => .bind (.act _) fun parameters => ?_
      exact justTook_bind (hypothesis _ _) (.bind (.discard (.expect _)) fun _ => .pure _)

/-- The parameters of a list, of either kind. -/
theorem listedParameters
    {fuel : Nat}
    {leading : Option String}
    (others : fork.Blind (parameters fuel leading [])) :
    fork.Blind (get >>= fun cursor =>
      if identifierListRun cursor.session cursor.rest then
        Grammar.identifierList cursor.rest.length leading []
      else parameters fuel leading []) where
  leads cursor := (Blind.ite (identifierList _ _ _) others).leads cursor
  agrees {first second} twins ahead := by
    have sameRun : identifierListRun second.session second.rest =
        identifierListRun first.session first.rest := by
      obtain ⟨front, isFirst, rfl⟩ := twins.apart
      rw [isFirst]
      exact identifierListRun_same first.session front
    rw [get_bind_run] at ahead ⊢
    rw [get_bind_run, sameRun]
    by_cases run : identifierListRun first.session first.rest = true
    · rw [if_pos run] at ahead ⊢
      rw [if_pos run]
      have agree := (@identifierList fork (max first.rest.length second.rest.length)
        leading []).agrees twins
      have finishes := (identifierList_lands leading [] twins.input run (Nat.le_refl _)).finishes
      have otherFinishes := (identifierList_lands leading [] twins.otherInput
        (sameRun.trans run) (Nat.le_refl _)).finishes
      rw [identifierList_refines _ _ (Nat.le_max_left _ _) first finishes,
        identifierList_refines _ _ (Nat.le_max_right _ _) second otherFinishes] at agree
      exact agree ahead
    · rw [if_neg run] at ahead ⊢
      rw [if_neg run]
      exact others.agrees twins ahead

end Blind

/-- The functions that read declarators do not see past the brace. -/
structure DeclaratorsBlind (fork : Fork) (fuel : Nat) : Prop where
  declarator (abstractAllowed : Bool) : fork.Blind (declarator fuel abstractAllowed)
  directDeclarator (abstractAllowed : Bool) : fork.Blind (directDeclarator fuel abstractAllowed)
  suffixes (base : Option Declarator) : fork.Blind (suffixes fuel base)
  parameterList : fork.Blind (parameterList fuel)
  parameters (leading : Option String) (read : List Parameter) :
    fork.Blind (parameters fuel leading read)
  parameterParts : fork.Blind (parameterParts fuel)

namespace DeclaratorsBlind

variable {fuel : Nat}

/-- One more step of fuel does not see past the bracket. -/
theorem succ (blind : fork.DeclaratorsBlind fuel) : fork.DeclaratorsBlind (fuel + 1) where
  declarator abstractAllowed := by
    unfold Grammar.declarator
    exact .bind .pointer fun operator => .bind (blind.directDeclarator _) fun direct => .pure _
  directDeclarator abstractAllowed := by
    unfold Grammar.directDeclarator
    refine .get_bind (fun cursor => .ite ?_ (.ite ?_ (.ite (blind.suffixes _) (.fail _)))) ?_
    · exact .bind .take fun name => blind.suffixes _
    · refine .bind (.discard .take) fun _ => .bind (blind.declarator _) fun inner => ?_
      exact .bind (.discard (.expect _)) fun _ => blind.suffixes _
    · intro first second twins
      rw [twins.peek]
      by_cases opens : first.peek.hasText "(" = true
      · rw [twins.opensNested opens]
      · simp [opens]
  suffixes base := by
    unfold Grammar.suffixes
    refine .bind (.sees _) fun isBracket => .ite ?_ (.bind (.sees _) fun isOpener => .ite ?_ ?_)
    · exact .bind .bracketText fun suffix => blind.suffixes _
    · exact .bind blind.parameterList fun parameters => blind.suffixes _
    · refine .bind .peek fun next => .ite ?_ (.pure _)
      exact .bind .skipAttributes fun _ => blind.suffixes _
  parameterList := by
    unfold Grammar.parameterList
    refine .bind (.expect _) fun opener => .bind (.accept _) fun closer => .ite (.pure _) ?_
    exact .listedParameters (blind.parameters _ _)
  parameters leading read := by
    unfold Grammar.parameters
    refine .bind .peek fun next => .bind blind.parameterParts fun parts => ?_
    refine .bind (.trailingComments _) fun comments => .bind (.act _) fun parameter => ?_
    refine .bind (.act _) fun read => .justTook_bind (blind.parameters _ _) ?_
    exact .bind (.discard (.expect _)) fun _ => .pure _
  parameterParts := by
    unfold Grammar.parameterParts
    refine .bind (.accept _) fun ellipsis => .ite (.pure _) ?_
    refine .bind (.declarationSpecifiers _) fun specifiers => ?_
    exact .bind (blind.declarator _) fun shape => .ite (.fail _) (.pure _)

/-- Reading declarators does not see past the bracket, by induction on the fuel. -/
theorem all (fuel : Nat) : fork.DeclaratorsBlind fuel := by
  induction fuel with
  | zero => constructor <;> intros <;> exact .exhausted
  | succ fuel hypothesis => exact hypothesis.succ

end DeclaratorsBlind

namespace Blind

theorem requiredDeclarator : fork.Blind requiredDeclarator := by
  refine .fuelled
    (fun fuel => .bind ((DeclaratorsBlind.all fuel).declarator false) fun shape => ?_) ?_
    fun input => (requiredDeclarator_lands input).finishes
  · cases shape with
    | none => exact .fail _
    | some shape => exact .pure shape
  · intro fewer more less
    exact .bind ((DeclaratorsRefine.of_le less).declarator false) fun _ => .rfl

/-! ## Declarations -/

/-- The end of a declarator does not see past the bracket. -/
theorem declaratorEnd (declarators : List Declarator) : fork.Blind (declaratorEnd declarators) := by
  refine .get_bind (fun cursor => .bind (.accept ",") fun comma => ?_) fun twins => ?_
  · cases comma with
    | some comma => exact .bind (.act _) fun declarators => .pure _
    | none =>
        refine .bind (.expect ";") fun semicolon => .bind ?_ fun parts => .pure _
        unfold endOfLineComment
        split
        · exact .bind (.act _) fun declarators => .pure _
        · exact .pure _
  · rw [Cursor.trailingComment, twins.previous, Cursor.trailingComment]

/-- Reading declarators of parameters does not see past the bracket. -/
theorem parameterDeclarators
    (count : Nat)
    (declarators : List Declarator) :
    fork.Blind (parameterDeclarators count declarators) := by
  induction count generalizing declarators with
  | zero => exact .exhausted
  | succ count hypothesis =>
      unfold Grammar.parameterDeclarators
      refine .bind requiredDeclarator fun declarator => .bind (declaratorEnd _) fun parts => ?_
      obtain ⟨declarators, ending⟩ := parts
      cases ending with
      | none => exact hypothesis _
      | some comment => exact .pure _

/-- Reading a parameter declaration does not see past the bracket. -/
theorem parameterDeclaration (function : Declarator) :
    fork.Blind (parameterDeclaration function) := by
  refine .bind .peek fun next => .bind (declarationSpecifiers _) fun specifiers => ?_
  cases specifiers with
  | none => exact .fail _
  | some specifiers =>
      refine .fuelled_bind (fun count => parameterDeclarators count [])
        (parameterDeclarators_refines []) ?_ fun parts => .bind (.act _) fun _ => .pure _
      exact fun input => (parameterDeclarators_lands [] input (Nat.le_refl _)).finishes

/-- Reading all parameter declarations does not see past the bracket. -/
theorem parameterDeclarations
    (count : Nat)
    (function : Declarator) :
    fork.Blind (parameterDeclarations count function) := by
  induction count generalizing function with
  | zero => exact .exhausted
  | succ count hypothesis =>
      unfold Grammar.parameterDeclarations
      refine .bind (.sees _) fun opens => .ite (.pure _) (.bind .peek fun next => ?_)
      exact .ite (.fail _) (.bind (parameterDeclaration _) fun function => hypothesis _)

/-- The parameter declarations of a definition, with as many steps as there are tokens. -/
theorem allParameterDeclarations (function : Declarator) :
    fork.Blind (get >>= fun cursor =>
      Grammar.parameterDeclarations (cursor.rest.length + 1) function) :=
  .fuelled (fun count => parameterDeclarations count function)
    (parameterDeclarations_refines function)
    fun input => (parameterDeclarations_lands function input (Nat.le_succ _)).finishes

/-- Reading a definition does not see past the bracket that opens its body. -/
theorem functionDefinition
    (comment : Option String)
    (spec : Spec)
    (function : Declarator) :
    fork.Blind (functionDefinition comment spec function) := by
  unfold Grammar.functionDefinition
  rw [← bind_assoc]
  refine .bind (allParameterDeclarations function) fun function => .bind .take fun opener => ?_
  exact .bind .peek fun next => .bind (skipUntilClose _) fun _ => .act _

/-- Reading the declarators of a declaration does not see past the bracket. -/
theorem declarators
    (start : DeclarationStart)
    (count : Nat)
    (read : List Declarator) :
    fork.Blind (declarators start count read) := by
  induction count generalizing read with
  | zero => exact .exhausted
  | succ count hypothesis =>
      unfold Grammar.declarators
      refine .bind .peek fun next => .bind requiredDeclarator fun declarator => ?_
      refine .bind skipAttributes fun _ => .bind .peek fun next => ?_
      refine .ite (functionDefinition _ _ _) (.bind (skipValue (by decide)) fun _ => ?_)
      refine .bind (declaratorEnd _) fun parts => ?_
      obtain ⟨read, ending⟩ := parts
      cases ending with
      | none => exact hypothesis _
      | some comment => exact .act _

theorem allDeclarators (start : DeclarationStart) :
    fork.Blind (get >>= fun cursor => Grammar.declarators start cursor.rest.length []) :=
  .fuelled (fun count => declarators start count []) (declarators_refines start [])
    fun input => (declarators_lands start [] input (Nat.le_refl _)).finishes

theorem takeCarried : fork.Blind takeCarried where
  leads _ := ⟨List.suffix_rfl, fun _ => .inl, fun _ => nofun⟩
  agrees {first second} twins _ := by
    have together := @Twins.change fork first second twins
      (fun cursor => { cursor with carried := none }) fun _ _ => rfl
    obtain ⟨front, isFirst, rfl⟩ := twins.apart
    exact .ok first.carried together

/-- Reading a declaration does not see past the bracket. -/
theorem externalDeclaration : fork.Blind externalDeclaration := by
  refine .bind takeCarried fun comment => .bind .peek fun next => ?_
  refine .bind (declarationSpecifiers _) fun specifiers => ?_
  cases specifiers with
  | none => exact allDeclarators _
  | some specifiers =>
      refine .bind (.accept ";") fun semicolon => .ite (.pure ()) (.bind .peek fun next => ?_)
      exact allDeclarators _

/-! ## Items -/

/-- Going on after an error does not see past the bracket. -/
theorem orElseRecorded
    {attempt instead : Parse Unit}
    (blind : fork.Blind attempt)
    (further : fork.Blind instead) :
    fork.Blind (orElseRecorded attempt instead) where
  leads cursor := by
    have leads := blind.leads cursor
    cases result : attempt cursor with
    | ok _ after =>
        rw [orElseRecorded_run_ok instead result]
        rwa [result] at leads
    | error error after =>
        rw [result] at leads
        cases error with
        | recorded =>
            rw [orElseRecorded_run_error instead result]
            exact leads.trans (further.leads after)
        | exhausted =>
            rw [orElseRecorded_run_exhausted instead result]
            exact leads
  agrees {first second} twins ahead := by
    have agree := blind.agrees twins
    cases result : attempt first with
    | ok _ after =>
        rw [orElseRecorded_run_ok instead result] at ahead ⊢
        rw [result] at agree
        obtain ⟨other, otherResult, together⟩ := (agree ahead).of_ok
        rw [orElseRecorded_run_ok instead otherResult]
        exact .ok () together
    | error error after =>
        rw [result] at agree
        cases error with
        | recorded =>
            rw [orElseRecorded_run_error instead result] at ahead ⊢
            have stillAhead := Nat.lt_of_lt_of_le ahead (further.leads after).length
            obtain ⟨other, otherResult, together⟩ := (agree stillAhead).of_error
            rw [orElseRecorded_run_error instead otherResult]
            exact further.agrees together ahead
        | exhausted =>
            rw [orElseRecorded_run_exhausted instead result] at ahead ⊢
            obtain ⟨other, otherResult, together⟩ := (agree ahead).of_error
            rw [orElseRecorded_run_exhausted instead otherResult]
            exact .error .exhausted together

/-- Closing a linkage block does not see past the bracket. -/
theorem closeLinkageBlock : fork.Blind closeLinkageBlock := by
  refine .bind (.modify_of (fun cursor => ?_) fun {first second} twins => ?_) fun _ =>
    .discard .take
  · split <;> exact .of_same rfl rfl rfl
  · have sameBlocks : second.linkageBlocks = first.linkageBlocks := by
      obtain ⟨front, isFirst, rfl⟩ := twins.apart
      rfl
    rw [sameBlocks]
    split
    · exact @Twins.change fork first second twins
        (fun cursor => { cursor with linkageBlocks := first.linkageBlocks - 1 }) fun _ _ => rfl
    · exact twins.recordError _

/-- The comment that is carried on is that of the word taken first. -/
theorem linkage : fork.Blind linkage where
  leads cursor := by
    have word := Cursor.LeadsTo.advance cursor
    have taken := word.trans (.advance cursor.advance)
    have block := taken.trans (.advance cursor.advance.advance)
    unfold Grammar.linkage
    rw [take_bind_run, discard_bind_run, take_bind_run, accept_bind_run]
    split
    · exact block.trans (.of_same rfl rfl rfl)
    · refine ⟨taken.rest, taken.previous, fun comment isCarried => .inr ?_⟩
      have isCarried : comment ∈ cursor.peek.commentBefore := isCarried
      unfold Cursor.peek at isCarried
      cases tokens : cursor.rest with
      | nil => simp [tokens, Cursor.endToken] at isCarried
      | cons token rest =>
          rw [tokens] at isCarried
          exact ⟨token, List.mem_cons_self, isCarried⟩
  agrees {first second} twins ahead := by
    unfold Grammar.linkage at ahead ⊢
    simp only [take_bind_run, discard_bind_run, accept_bind_run, twins.peek] at ahead ⊢
    have aheadTaken : fork.Ahead first.advance.advance := by
      refine Nat.lt_of_lt_of_le ahead ?_
      split
      · exact (Cursor.LeadsTo.advance first.advance.advance).length
      · exact Nat.le_refl _
    have aheadWord : fork.Ahead first.advance :=
      Nat.lt_of_lt_of_le aheadTaken (Cursor.LeadsTo.advance first.advance).length
    have taken := ((twins.advance aheadWord).1.advance aheadTaken).1
    rw [taken.peek]
    by_cases opens : first.advance.advance.peek.hasText "\x7b" = true
    · rw [if_pos opens] at ahead ⊢
      rw [if_pos opens]
      exact .ok () (@Twins.change fork _ _ (taken.advance ahead).1
        (fun cursor => { cursor with linkageBlocks := cursor.linkageBlocks + 1 }) fun _ _ => rfl)
    · rw [if_neg opens] at ahead ⊢
      rw [if_neg opens]
      exact .ok () (@Twins.change fork _ _ taken
        (fun cursor => { cursor with carried := first.peek.commentBefore }) fun _ _ => rfl)

/-- Reading an item of a file does not see past the bracket. -/
theorem item : fork.Blind item := by
  refine .get_bind (fun cursor => ?_) fun {first second} twins => ?_
  · refine .ite (.discard .take) (.ite closeLinkageBlock (.ite linkage (.ite ?_ ?_)))
    · exact .orElseRecorded skipStatement (.pure ())
    · exact .orElseRecorded externalDeclaration recover
  · dsimp only
    rw [twins.peek]
    by_cases isExtern : first.peek.hasText "extern" = true
    · rw [twins.peekNth_one (.inl (ne_opener_of_hasText isExtern (by decide)))]
    · simp [isExtern]

end Blind
end Fork
end Grammar
end DeclManual

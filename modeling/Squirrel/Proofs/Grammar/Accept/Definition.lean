import Squirrel.Proofs.Grammar.Accept.Collection

/-!
# Accepting definitions

Functions, attributes, classes, enums and constants, with the ends of statements.
-/

namespace Squirrel.Grammar

open Word Rule

variable {settled : Bool} {words middle between inner last : List Word} {word next left right name equals keyword : Word}
  {first second third rest trees : List Tree} {kind : Kind}

/-! ### Ends of statements -/

theorem accepts_terminatorWord {what : String} (hword : word.kind = .semicolon) :
    (expectTerminator what).Accepts settled (word :: last) () [word.tree] last := by
  exact accepts_end (accepts_orM_taken (accepts_eat hword rfl)) (accepts_pure ())

theorem accepts_terminatorPlace {what : String} (hhere : here words ≠ .semicolon) (hend : MayEnd words) :
    (expectTerminator what).Accepts settled words () [] words := by
  have hplace : (atEnd <||> currentIs .braceClose <||> ofStep .afterLineBreak).Accepts true words true [] words := by
    cases words with
    | nil => exact accepts_orM_taken accepts_atEnd
    | cons word rest =>
      refine Looks.accepts (looks_orM (tests_atEnd (List.cons_ne_nil word rest)) ?_)
      by_cases hclose : here (word :: rest) = .braceClose
      · exact looks_orM_true (looks_currentIs hclose)
      · have hbreak : word.afterBreak = true := by
          obtain hnil | hhere | hbreak := hend
          · exact absurd hnil (List.cons_ne_nil word rest)
          · exact absurd hhere hclose
          · simpa [AfterBreak] using hbreak
        have hafter := @looks_afterLineBreak word rest
        rw [hbreak] at hafter
        exact looks_orM (Looks.tests (looks_currentIs_other hclose)) hafter
  exact accepts_end (accepts_orM (looks_eat_other hhere) hplace) (accepts_pure ())

/-! ### Functions -/

theorem accepts_body {owner : String} (hstarts : StartsStatement words)
    (hbody : (call .statement).Accepts true words () trees last) :
    (body owner).Accepts settled words () trees last :=
  accepts_yes (looks_startsStatement hstarts) hbody

theorem accepts_pathEnd (hhere : here words ≠ kind) : (call (.path kind)).Accepts settled words () [] words :=
  accepts_call (accepts_no (looks_eat_other hhere) (accepts_pure ()))

theorem accepts_pathMore (hword : word.kind = kind) (haccepted : kind.isRejected = false) (hname : name.kind = .id)
    (hrest : (call (.path kind)).Accepts false words () rest last) :
    (call (.path kind)).Accepts settled (word :: name :: words) () ([word.tree] ++ ([name.tree] ++ rest)) last :=
  accepts_call (accepts_taken (accepts_eat hword haccepted) (accepts_taken (accepts_expect hname rfl) hrest))

theorem accepts_functionDeclaration (hkeyword : keyword.kind = .kwFunction) (hname : name.kind = .id)
    (hpath : (call (.path .doubleColon)).Accepts false words () first middle)
    (hparameters : parameters.Accepts false middle () second between) (hstarts : StartsStatement between)
    (hbody : (call .statement).Accepts true between () third last) :
    functionDeclaration.Accepts true (keyword :: name :: words) ()
      [.node .functionDeclaration ([keyword.tree] ++ ([name.tree] ++ (first ++ (second ++ third))))] last := by
  refine accepts_node (accepts_bind (accepts_advance (by rw [hkeyword]; rfl)) ?_)
  refine accepts_taken (accepts_expect hname rfl) (accepts_bind hpath ?_)
  exact accepts_bind hparameters (accepts_body hstarts hbody)

/-! ### Attributes -/

theorem accepts_attributes (hleft : left.kind = .attributeOpen)
    (hlist : (call .attributeList).Accepts false words () trees (right :: last))
    (hright : right.kind = .attributeClose) :
    attributes.Accepts settled (left :: words) ()
      [.node .attributeDeclaration ([left.tree] ++ (trees ++ [right.tree]))] last :=
  accepts_node (accepts_between (by rw [hleft]; rfl) hlist hright rfl)

theorem accepts_attributesEnd (hhere : here words = .attributeClose) :
    (call .attributeList).Accepts settled words () [] words :=
  accepts_call (accepts_yes (looks_ending hhere nofun) (accepts_pure ()))

/-- The name, sign and value of an attribute. -/
def attributeEntry : Rule Unit := node .attributeEntry do
  advance
  if ← expect .equals "`=` after attribute name" then constValue

theorem accepts_attributeEntry (hname : name.kind = .id) (hequals : equals.kind = .equals)
    (hvalue : constValue.Accepts false words () trees last) :
    attributeEntry.Accepts true (name :: equals :: words) ()
      [.node .attributeEntry ([name.tree] ++ ([equals.tree] ++ trees))] last := by
  refine accepts_node (accepts_bind (accepts_advance (by rw [hname]; rfl)) ?_)
  exact accepts_taken (accepts_expect hequals rfl) hvalue

theorem accepts_attributesLast (hhere : here words = .id) (hentry : attributeEntry.Accepts true words () trees last)
    (hlast : here last = .attributeClose) : (call .attributeList).Accepts settled words () trees last := by
  refine accepts_call (accepts_no (looks_going (ne_nil_of_here hhere nofun) (by rw [hhere]; decide)) ?_)
  refine accepts_yes (looks_currentIs hhere) (accepts_end hentry (accepts_no ?_ (accepts_pure ())))
  exact looks_orM (Looks.tests (looks_eat_other (by rw [hlast]; decide)))
    (looks_currentIs_other (by rw [hlast]; decide))

theorem accepts_attributesOn (hhere : here words = .id) (hentry : attributeEntry.Accepts true words () first middle)
    (hnext : here middle = .id) (hrest : (call .attributeList).Accepts true middle () rest last) :
    (call .attributeList).Accepts settled words () (first ++ rest) last := by
  refine accepts_call (accepts_no (looks_going (ne_nil_of_here hhere nofun) (by rw [hhere]; decide)) ?_)
  refine accepts_yes (looks_currentIs hhere) (accepts_bind hentry (accepts_yes ?_ hrest))
  exact looks_orM (Looks.tests (looks_eat_other (by rw [hnext]; decide))) (looks_currentIs hnext)

theorem accepts_attributesComma (hhere : here words = .id)
    (hentry : attributeEntry.Accepts true words () first (word :: middle)) (hcomma : word.kind = .comma)
    (hrest : (call .attributeList).Accepts false middle () rest last) :
    (call .attributeList).Accepts settled words () (first ++ ([word.tree] ++ rest)) last := by
  refine accepts_call (accepts_no (looks_going (ne_nil_of_here hhere nofun) (by rw [hhere]; decide)) ?_)
  refine accepts_yes (looks_currentIs hhere) (accepts_bind hentry ?_)
  exact accepts_taken (accepts_orM_taken (accepts_eat hcomma rfl)) hrest

theorem accepts_noAttributes (hhere : here words ≠ .attributeOpen) :
    optionalAttributes.Accepts settled words () [] words :=
  accepts_no (looks_currentIs_other hhere) (accepts_pure ())

theorem accepts_someAttributes (hhere : here words = .attributeOpen)
    (hattributes : attributes.Accepts true words () trees last) :
    optionalAttributes.Accepts settled words () trees last :=
  accepts_yes (looks_currentIs hhere) hattributes

/-! ### Classes -/

theorem accepts_memberValue {what : String} (hequals : equals.kind = .equals)
    (hvalue : expressionOrTable.Accepts false words () first middle) {answer : Bool}
    (hend : (eat .semicolon).Accepts false middle answer second last) :
    (memberValue true what).Accepts settled (equals :: words) () ([equals.tree] ++ (first ++ second)) last := by
  have hoptional := accepts_whole () hend
  exact accepts_taken (accepts_expect hequals rfl) (accepts_bind hvalue hoptional)

theorem accepts_field {answer answer' : Bool}
    (hattributes : optionalAttributes.Accepts false words () first middle)
    (hhere : here middle = .kwStatic ∨ here middle = .id)
    (hstatic : (eat .kwStatic).Accepts true middle answer second (name :: equals :: between))
    (hname : name.kind = .id) (hequals : equals.kind = .equals)
    (hvalue : expressionOrTable.Accepts false between () rest inner)
    (hend : (eat .semicolon).Accepts false inner answer' third last) :
    member.Accepts settled words ()
      [.node .memberDeclaration (first ++ (second ++ ([name.tree] ++ ([equals.tree] ++ (rest ++ third)))))] last := by
  refine accepts_node (accepts_bind (Accepts.anywhere hattributes) (accepts_look looks_current ?_))
  obtain hhere | hhere := hhere
  all_goals
    rw [hhere]
    refine accepts_bind hstatic (accepts_bind (accepts_expect hname rfl) ?_)
    exact accepts_memberValue hequals hvalue hend

theorem accepts_computed {answer : Bool} (hattributes : optionalAttributes.Accepts false words () first (left :: middle))
    (hleft : left.kind = .bracketOpen) (hkey : expression.Accepts false middle () second (right :: equals :: between))
    (hright : right.kind = .bracketClose) (hequals : equals.kind = .equals)
    (hvalue : expressionOrTable.Accepts false between () rest inner)
    (hend : (eat .semicolon).Accepts false inner answer third last) :
    member.Accepts settled words ()
      [.node .memberDeclaration (first ++ ([left.tree] ++ (second ++ ([right.tree] ++ ([equals.tree] ++
        (rest ++ third))))))] last := by
  refine accepts_node (accepts_bind (Accepts.anywhere hattributes) (accepts_look looks_current ?_))
  rw [here_cons, hleft]
  refine accepts_bind (accepts_open (by rw [hleft]; rfl)) (accepts_bind hkey ?_)
  exact accepts_bind (accepts_close hright rfl) (accepts_memberValue hequals hvalue hend)

theorem accepts_method (hattributes : optionalAttributes.Accepts false words () first middle)
    (hhere : here middle = .kwFunction) (hfunction : functionDeclaration.Accepts true middle () second last) :
    member.Accepts settled words () [.node .memberDeclaration (first ++ second)] last := by
  refine accepts_node (accepts_bind (Accepts.anywhere hattributes) (accepts_look looks_current ?_))
  rwa [hhere]

theorem accepts_constructor (hattributes : optionalAttributes.Accepts false words () first (keyword :: middle))
    (hkeyword : keyword.kind = .kwConstructor) (hparameters : parameters.Accepts false middle () second between)
    (hstarts : StartsStatement between) (hbody : (call .statement).Accepts true between () third last) :
    member.Accepts settled words ()
      [.node .memberDeclaration (first ++ ([keyword.tree] ++ (second ++ third)))] last := by
  refine accepts_node (accepts_bind (Accepts.anywhere hattributes) (accepts_look looks_current ?_))
  rw [here_cons, hkeyword]
  refine accepts_bind (accepts_advance (by rw [hkeyword]; rfl)) (accepts_bind hparameters ?_)
  exact accepts_body hstarts hbody

theorem accepts_membersEnd (hhere : here words = .braceClose) : (call .members).Accepts settled words () [] words :=
  accepts_call (accepts_yes (looks_ending hhere nofun) (accepts_pure ()))

theorem accepts_membersMore (hhere : TokenSet.memberFirst.contains (here words) = true)
    (hmember : member.Accepts true words () first middle) (hrest : (call .members).Accepts false middle () rest last) :
    (call .members).Accepts settled words () (first ++ rest) last := by
  have hne {kind : Kind} (hkind : TokenSet.memberFirst.contains kind = false) : here words ≠ kind := by
    rintro rfl
    rw [hkind] at hhere
    exact nomatch hhere
  have hwords : words ≠ [] := by
    rintro rfl
    exact absurd rfl (hne (by decide : TokenSet.memberFirst.contains .error = false))
  refine accepts_call (accepts_no (looks_going hwords (hne (by decide))) ?_)
  have hin := @looks_currentIn words TokenSet.memberFirst
  rw [hhere] at hin
  exact accepts_yes hin (accepts_bind hmember hrest)

/-- The base of a class. -/
def base : Rule Unit := do
  if ← eat .kwExtends then
    let _ ← expect .id "base class after `extends`"

theorem accepts_noBase (hhere : here words ≠ .kwExtends) : base.Accepts settled words () [] words :=
  accepts_no (looks_eat_other hhere) (accepts_pure ())

theorem accepts_someBase (hkeyword : keyword.kind = .kwExtends) (hname : name.kind = .id) :
    base.Accepts settled (keyword :: name :: last) () ([keyword.tree] ++ [name.tree]) last :=
  accepts_taken (accepts_eat hkeyword rfl) (accepts_whole () (accepts_expect hname rfl))

theorem accepts_classDeclaration (hkeyword : keyword.kind = .kwClass) (hname : name.kind = .id)
    (hpath : (call (.path .dot)).Accepts false words () first middle)
    (hbase : base.Accepts false middle () second between)
    (hattributes : optionalAttributes.Accepts false between () third (left :: inner))
    (hleft : left.kind = .braceOpen) (hmembers : (call .members).Accepts false inner () rest (right :: last))
    (hright : right.kind = .braceClose) :
    classDeclaration.Accepts true (keyword :: name :: words) ()
      [.node .classDeclaration ([keyword.tree] ++ ([name.tree] ++ (first ++ (second ++ (third ++ ([left.tree] ++
        (rest ++ [right.tree])))))))] last := by
  refine accepts_node (accepts_bind (accepts_advance (by rw [hkeyword]; rfl)) ?_)
  refine accepts_taken (accepts_expect hname rfl) (accepts_bind hpath (accepts_optionOf hbase ?_))
  refine accepts_bind hattributes (accepts_yes (looks_currentIs hleft) ?_)
  exact accepts_between (by rw [hleft]; rfl) hmembers hright rfl

/-! ### Enums -/

theorem accepts_enumEnd (hhere : here words = .braceClose) : (call .enumEntries).Accepts settled words () [] words :=
  accepts_call (accepts_yes (looks_ending hhere nofun) (accepts_pure ()))

theorem accepts_enumLast (hhere : here words = .id)
    (hentry : (node .enumEntry (advance >>= fun _ => initialConst)).Accepts true words () trees last)
    (hlast : here last = .braceClose) : (call .enumEntries).Accepts settled words () trees last := by
  refine accepts_call (accepts_no (looks_going (ne_nil_of_here hhere nofun) (by rw [hhere]; decide)) ?_)
  refine accepts_yes (looks_currentIs hhere) (accepts_end hentry ?_)
  exact accepts_no (looks_eat_other (by rw [hlast]; decide)) (accepts_pure ())

theorem accepts_enumMore (hhere : here words = .id)
    (hentry : (node .enumEntry (advance >>= fun _ => initialConst)).Accepts true words () first (word :: middle))
    (hcomma : word.kind = .comma) (hrest : (call .enumEntries).Accepts false middle () rest last) :
    (call .enumEntries).Accepts settled words () (first ++ ([word.tree] ++ rest)) last := by
  refine accepts_call (accepts_no (looks_going (ne_nil_of_here hhere nofun) (by rw [hhere]; decide)) ?_)
  refine accepts_yes (looks_currentIs hhere) (accepts_bind hentry ?_)
  exact accepts_taken (accepts_eat hcomma rfl) hrest

theorem accepts_enumDeclaration (hkeyword : keyword.kind = .kwEnum) (hname : name.kind = .id)
    (hattributes : optionalAttributes.Accepts false words () first (left :: middle)) (hleft : left.kind = .braceOpen)
    (hentries : (call .enumEntries).Accepts false middle () second (right :: between))
    (hright : right.kind = .braceClose) {answer : Bool} (hend : (eat .semicolon).Accepts false between answer third last) :
    enumDeclaration.Accepts true (keyword :: name :: words) ()
      [.node .enumDeclaration ([keyword.tree] ++ ([name.tree] ++ (first ++ ([left.tree] ++ (second ++ ([right.tree] ++
        third))))))] last := by
  refine accepts_node (accepts_bind (accepts_advance (by rw [hkeyword]; rfl)) ?_)
  refine accepts_bind (accepts_expect hname rfl) (accepts_bind hattributes (accepts_yes (looks_currentIs hleft) ?_))
  refine accepts_bind (accepts_open (by rw [hleft]; rfl)) (accepts_bind hentries ?_)
  exact accepts_bind (accepts_close hright rfl) (accepts_whole () hend)

/-! ### Constants -/

theorem accepts_constDeclaration (hkeyword : keyword.kind = .kwConst) (hname : name.kind = .id)
    (hequals : equals.kind = .equals) (hvalue : constValue.Accepts false words () first middle)
    (hend : ∀ what, (expectTerminator what).Accepts false middle () second last) :
    constDeclaration.Accepts true (keyword :: name :: equals :: words) ()
      [.node .constDeclaration ([keyword.tree] ++ ([name.tree] ++ ([equals.tree] ++ (first ++ second))))] last := by
  refine accepts_node (accepts_bind (accepts_advance (by rw [hkeyword]; rfl)) ?_)
  refine accepts_taken (accepts_expect hname rfl) (accepts_taken (accepts_expect hequals rfl) ?_)
  exact accepts_bind hvalue (hend _)

end Squirrel.Grammar

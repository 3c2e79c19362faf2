import Squirrel.Proofs.Grammar.Sound.Collection

/-!
# Definitions are read by their productions

Functions, classes, enums, constants and attributes.
-/

namespace Squirrel.Grammar

open Word Rule

variable {readCall : Nonterminal → View → Option View} (hcalls : SoundCalls readCall) {view : View}

include hcalls

theorem sound_body (owner : String) : (body owner).Ensures readCall view fun _ after =>
    view.Reads [.part .statement] after := by
  rw [body]
  refine ensures_bind (ensures_startsStatement (fun hstarts => ?_) fun _ => ensures_of_none (read_reportHere ..))
  refine ensures_call fun after hstatement => .of_passTrivia (hcalls.statement hstatement ?_)
  rw [View.words_passTrivia]
  intro hnil
  simp [StartsStatement, hnil] at hstarts
  exact absurd hstarts (by decide)

/-! ### Functions -/

theorem sound_path (separator : Kind) : (path separator).Ensures readCall view fun _ after =>
    view.Reads [.part (.path separator)] after := by
  rw [path]
  refine ensures_bind (ensures_eat (fun between hseparator => ?_) fun hhere => ?_)
  · refine ensures_bind (ensures_expect fun named hname => ?_)
    refine ensures_call fun after hrest => ?_
    exact .bare .pathMore (hseparator.append (hname.append (hcalls.path hrest)))
  · exact ensures_pure (.bare .pathEnd (.check hhere (.of_passTrivia (.nil _))))

theorem sound_functionDeclaration (hsettled : view.Settled) (hhere : here view.words = .kwFunction) :
    functionDeclaration.Ensures readCall view fun _ after => view.Reads [.part .functionDeclaration] after := by
  refine ensures_node .functionDeclaration fun start hwords hstart => ?_
  refine ensures_bind (ensures_keyword (hstart hsettled) (hwords ▸ hhere) fun started hkeyword _ => ?_)
  refine ensures_bind (ensures_expect fun named hname => ?_)
  refine ensures_bind (ensures_call fun placed hpath => ?_)
  refine ensures_then (sound_parameters hcalls) fun _ between hparameters => ?_
  refine ensures_mono (sound_body hcalls _) fun _ after hbody => ?_
  exact hkeyword.append (hname.append ((hcalls.path hpath).append (hparameters.append hbody)))

/-! ### Attributes -/

theorem sound_attributes (hhere : here view.words = .attributeOpen) :
    attributes.Ensures readCall view fun _ after => view.Reads [.part .attributes] after := by
  refine ensures_node .attributes fun start hwords _ => ?_
  refine ensures_bind (ensures_open (hwords ▸ hhere) fun opened hopen => ?_)
  refine ensures_bind (ensures_call fun between hlist => ?_)
  exact ensures_close fun after hcloses hclose => hopen.append ((hcalls.attributeList hlist hcloses).append hclose)

theorem sound_attributesGoOn : attributesGoOn.Ensures readCall view fun _ after =>
    here after.words = .attributeClose → view.Reads [.part (.optional .comma), .part .attributeList] after := by
  rw [attributesGoOn]
  refine ensures_bind (ensures_bind (ensures_eat (fun between hcomma => ?_) fun hcomma => ?_))
  · refine ensures_pure (ensures_call fun after hrest hcloses => ?_)
    exact View.Reads.append (.bare .someToken hcomma) (hcalls.attributeList hrest hcloses)
  · have hnone : view.Reads [.part (.optional .comma)] view.passTrivia.passTrivia :=
      .bare .noToken (.check hcomma (.of_passTrivia (.of_passTrivia (.nil _))))
    refine ensures_currentIs (fun _ => ?_) fun _ => ?_
    · exact ensures_call fun after hrest hcloses => hnone.append (hcalls.attributeList hrest hcloses)
    · exact ensures_pure fun _ => hnone.append (.bare .attributesEnd (.nil _))

theorem sound_attributeList : attributeList.Ensures readCall view fun _ after =>
    here after.words = .attributeClose → view.Reads [.part .attributeList] after := by
  have hsettled := view.settled_passTrivia
  have hsame := view.words_passTrivia
  rw [attributeList]
  refine ensures_bind (ensures_ending (fun _ => ?_) (ensures_currentIs (fun _ => ?_) fun _ => ?_))
  · exact ensures_pure fun _ => .bare .attributesEnd (.nil view)
  · exact ensures_pure fun _ => .bare .attributesEnd (.of_passTrivia (.nil _))
  refine ensures_bind (ensures_currentIs (fun hhere => ?_) fun _ => ensures_of_none_bind (read_recover ..))
  rw [hsettled]
  rw [hsame] at hhere
  refine ensures_then (ensures_node .attributeEntry fun start hwords hstart => ?_) fun _ between hentry => ?_
  · refine ensures_bind (ensures_keyword (hstart hsettled) (hwords ▸ hsame ▸ hhere) fun named hname _ => ?_)
    refine ensures_bind (ensures_expect fun second hequals => ?_)
    exact ensures_mono (sound_constValue hcalls) fun _ after hvalue => hname.append (hequals.append hvalue)
  · refine ensures_mono (sound_attributesGoOn hcalls) fun _ after hrest hcloses => ?_
    exact .of_passTrivia (.bare .attributesMore (hentry.append (hrest hcloses)))

theorem sound_optionalAttributes : optionalAttributes.Ensures readCall view fun _ after =>
    view.Reads [.part .optionalAttributes] after := by
  rw [optionalAttributes]
  refine ensures_bind (ensures_currentIs (fun hhere => ?_) fun hhere => ?_)
  · refine ensures_mono (sound_attributes hcalls (view.words_passTrivia ▸ hhere)) fun _ after hattributes => ?_
    exact .of_passTrivia (.bare .someAttributes hattributes)
  · exact ensures_pure (.bare .noAttributes (.check hhere (.of_passTrivia (.nil _))))

/-! ### Classes -/

theorem sound_memberValue (what : String) : (memberValue true what).Ensures readCall view fun _ after =>
    view.Reads [.word .equals, .part (.expression 0 true), .part (.optional .semicolon)] after := by
  rw [memberValue]
  refine ensures_bind (ensures_expect fun between hequals => ?_)
  refine ensures_bind (ensures_call fun valued hvalue => ?_)
  refine ensures_bind (ensures_optional fun _ after hend => ensures_pure ?_)
  exact hequals.append ((hcalls.expression hvalue).append hend)

theorem sound_field : (do
      let _ ← eat .kwStatic
      let isNamed ← expect .id "field name"
      memberValue isNamed "`=` after field name" : Rule Unit).Ensures readCall view fun _ after =>
    view.Reads [.part (.optional .kwStatic), .word .id, .word .equals, .part (.expression 0 true),
      .part (.optional .semicolon)] after := by
  refine ensures_bind (ensures_optional fun _ started hstatic => ?_)
  refine ensures_bind (ensures_expect fun named hname => ?_)
  exact ensures_mono (sound_memberValue hcalls _) fun _ after hvalue => hstatic.append (hname.append hvalue)

theorem sound_member : member.Ensures readCall view fun _ after => view.Reads [.part .member] after := by
  refine ensures_anyNode fun start hwords hstart => ?_
  refine ensures_then (sound_optionalAttributes hcalls) fun _ marked hattributes => ?_
  have hsettled := marked.settled_passTrivia
  have hsame := marked.words_passTrivia
  refine ensures_bind (ensures_current ?_)
  split
  case h_1 hhere | h_2 hhere =>
    refine ensures_mono (sound_field hcalls) fun _ after hfield => ?_
    exact ⟨_, .field, hattributes.append (.of_passTrivia hfield)⟩
  case h_3 hhere =>
    refine ensures_bind (ensures_open (hsame ▸ hhere) fun opened hopen => ?_)
    refine ensures_bind (ensures_call fun named hkey => ?_)
    refine ensures_bind (ensures_close fun closed _ hclose => ?_)
    refine ensures_mono (sound_memberValue hcalls _) fun _ after hvalue => ?_
    have hkeyed := hopen.append ((hcalls.expression hkey).append (hclose.append hvalue))
    exact ⟨_, .computed, hattributes.append (.of_passTrivia hkeyed)⟩
  case h_4 hhere =>
    refine ensures_mono (sound_functionDeclaration hcalls hsettled (hsame ▸ hhere)) fun _ after hmethod => ?_
    exact ⟨_, .method, hattributes.append (.of_passTrivia hmethod)⟩
  case h_5 hhere =>
    refine ensures_bind (ensures_keyword hsettled (hsame ▸ hhere) fun started hkeyword _ => ?_)
    refine ensures_then (sound_parameters hcalls) fun _ between hparameters => ?_
    refine ensures_mono (sound_body hcalls _) fun _ after hbody => ?_
    have hparts := hkeyword.append (hparameters.append hbody)
    exact ⟨_, .constructor, hattributes.append (.of_passTrivia hparts)⟩
  case h_6 => exact ensures_of_none (read_reportHere ..)

theorem sound_members : members.Ensures readCall view fun _ after =>
    here after.words = .braceClose → view.Reads [.part .members] after := by
  rw [members]
  refine ensures_bind (ensures_ending (fun _ => ?_) (ensures_currentIs (fun _ => ?_) fun _ => ?_))
  · exact ensures_pure fun _ => .bare .membersEnd (.nil view)
  · exact ensures_pure fun _ => .bare .membersEnd (.of_passTrivia (.nil _))
  refine ensures_bind (ensures_currentIn ?_)
  split
  · refine ensures_then (sound_member hcalls) fun _ between hmember => ?_
    refine ensures_call fun after hrest hcloses => ?_
    rw [view.settled_passTrivia] at hmember
    exact .of_passTrivia (.bare .membersMore (hmember.append (hcalls.members hrest hcloses)))
  · exact ensures_of_none_bind (read_recover ..)

theorem sound_classDeclaration (hsettled : view.Settled) (hhere : here view.words = .kwClass) :
    classDeclaration.Ensures readCall view fun _ after => view.Reads [.part .classDeclaration] after := by
  refine ensures_node .classDeclaration fun start hwords hstart => ?_
  refine ensures_bind (ensures_keyword (hstart hsettled) (hwords ▸ hhere) fun started hkeyword _ => ?_)
  refine ensures_bind (ensures_expect fun named hname => ?_)
  refine ensures_bind (ensures_call fun placed hpath => ?_)
  have hnamed := hkeyword.append (hname.append (hcalls.path hpath))
  -- what follows the base, whether there is one or not
  have hrest (extended : View) (hbase : placed.Reads [.part .base] extended) : (do
      optionalAttributes
      if ← currentIs .braceOpen then
        openDelimiter .braceOpen
        call .members
        closeDelimiter .braceClose "class body"
      else
        let _ ← expect .braceOpen "`\x7b` to open class body" : Rule Unit).Ensures readCall extended fun _ after =>
      start.Reads [.word .kwClass, .word .id, .part (.path .dot), .part .base, .part .optionalAttributes,
        .word .braceOpen, .part .members, .word .braceClose] after := by
    refine ensures_then (sound_optionalAttributes hcalls) fun _ marked hattributes => ?_
    refine ensures_bind (ensures_currentIs (fun hhere => ?_) fun hhere => ?_)
    · refine ensures_bind (ensures_open (marked.words_passTrivia ▸ hhere) fun opened hopen => ?_)
      refine ensures_bind (ensures_call fun between hmembers => ?_)
      refine ensures_close fun after hcloses hclose => ?_
      have hbody := hopen.append ((hcalls.members hmembers hcloses).append hclose)
      exact hnamed.append (hbase.append (hattributes.append (.of_passTrivia hbody)))
    · exact ensures_of_none_bind (read_expect_eq_none (marked.words_passTrivia ▸ hhere))
  refine ensures_bind (ensures_eat (fun extending hextends => ?_) fun hhere => ?_)
  · refine ensures_bind (ensures_expect fun extended hbase => ?_)
    exact hrest extended (.bare .someBase (hextends.append hbase))
  · exact hrest _ (.bare .noBase (.check hhere (.of_passTrivia (.nil _))))

/-! ### Enums and constants -/

theorem sound_enumEntries : enumEntries.Ensures readCall view fun _ after =>
    here after.words = .braceClose → view.Reads [.part .enumEntries] after := by
  have hsettled := view.settled_passTrivia
  have hsame := view.words_passTrivia
  rw [enumEntries]
  refine ensures_bind (ensures_ending (fun _ => ?_) (ensures_currentIs (fun _ => ?_) fun _ => ?_))
  · exact ensures_pure fun _ => .bare .enumEnd (.nil view)
  · exact ensures_pure fun _ => .bare .enumEnd (.of_passTrivia (.nil _))
  refine ensures_bind (ensures_currentIs (fun hhere => ?_) fun _ => ensures_of_none_bind (read_recover ..))
  rw [hsettled]
  rw [hsame] at hhere
  refine ensures_then (ensures_node .enumEntry fun start hwords hstart => ?_) fun _ between hentry => ?_
  · refine ensures_bind (ensures_keyword (hstart hsettled) (hwords ▸ hsame ▸ hhere) fun named hname _ => ?_)
    exact sound_initialConst hcalls fun after hvalue => hname.append hvalue
  refine ensures_bind (ensures_eat (fun second hcomma => ?_) fun _ => ?_)
  · refine ensures_call fun after hrest hcloses => ?_
    exact .of_passTrivia (.bare .moreEntries (hentry.append (hcomma.append (hcalls.enumEntries hrest hcloses))))
  · exact ensures_pure fun _ => .of_passTrivia (.bare .lastEntry (hentry.append (.of_passTrivia (.nil _))))

theorem sound_enumDeclaration (hsettled : view.Settled) (hhere : here view.words = .kwEnum) :
    enumDeclaration.Ensures readCall view fun _ after => view.Reads [.part .enumDeclaration] after := by
  refine ensures_node .enumDeclaration fun start hwords hstart => ?_
  refine ensures_bind (ensures_keyword (hstart hsettled) (hwords ▸ hhere) fun started hkeyword _ => ?_)
  refine ensures_bind (ensures_expect fun named hname => ?_)
  refine ensures_then (sound_optionalAttributes hcalls) fun _ marked hattributes => ?_
  refine ensures_bind (ensures_currentIs (fun hopens => ?_) fun hopens => ?_)
  · refine ensures_bind (ensures_open (marked.words_passTrivia ▸ hopens) fun opened hopen => ?_)
    refine ensures_bind (ensures_call fun between hentries => ?_)
    refine ensures_bind (ensures_close fun closed hcloses hclose => ?_)
    refine ensures_bind (ensures_optional fun _ after hend => ensures_pure ?_)
    have hbody := hopen.append ((hcalls.enumEntries hentries hcloses).append (hclose.append hend))
    exact hkeyword.append (hname.append (hattributes.append (.of_passTrivia hbody)))
  · exact ensures_of_none_bind (read_expect_eq_none (marked.words_passTrivia ▸ hopens))

omit hcalls in
theorem sound_expectTerminator (what : String) : (expectTerminator what).Ensures readCall view fun _ after =>
    view.Reads [.part .terminator] after := by
  have hsettled := view.settled_passTrivia
  have hsame := view.words_passTrivia
  rw [expectTerminator]
  refine ensures_bind (ensures_bind (ensures_eat (fun after hend => ?_) fun hhere => ?_))
  · exact ensures_pure (ensures_pure (.bare .terminatorWord hend))
  have hplace (hends : MayEnd view.words) : view.Reads [.part .terminator] view.passTrivia :=
    .bare .terminatorPlace (.check ⟨hhere, hends⟩ (.of_passTrivia (.nil _)))
  refine ensures_bind (ensures_atEnd hsettled (fun hnil => ?_) fun hsome => ?_)
  · exact ensures_pure (ensures_pure (hplace (.inl (hsame ▸ hnil))))
  refine ensures_bind (ensures_currentIs (fun hcloses => ?_) fun _ => ?_)
  · rw [hsettled]
    exact ensures_pure (ensures_pure (hplace (.inr (.inl (hsame ▸ hcloses)))))
  rw [hsettled]
  refine ensures_afterLineBreak hsome (fun hbreak => ?_) fun _ => ensures_of_none (read_reportHere ..)
  rw [hsettled]
  exact ensures_pure (hplace (.inr (.inr (hsame ▸ hbreak))))

theorem sound_constDeclaration (hsettled : view.Settled) (hhere : here view.words = .kwConst) :
    constDeclaration.Ensures readCall view fun _ after => view.Reads [.part .constDeclaration] after := by
  refine ensures_node .constDeclaration fun start hwords hstart => ?_
  refine ensures_bind (ensures_keyword (hstart hsettled) (hwords ▸ hhere) fun started hkeyword _ => ?_)
  refine ensures_bind (ensures_expect fun named hname => ?_)
  refine ensures_bind (ensures_expect fun between hequals => ?_)
  refine ensures_then (sound_constValue hcalls) fun _ valued hvalue => ?_
  refine ensures_mono (sound_expectTerminator _) fun _ after hend => ?_
  exact hkeyword.append (hname.append (hequals.append (hvalue.append hend)))

end Squirrel.Grammar

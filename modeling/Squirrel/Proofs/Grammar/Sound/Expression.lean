import Squirrel.Proofs.Grammar.Sound.Definition

/-!
# Expressions are read by their productions

An operand, and then the suffixes one after the other. The operator loop wraps what has been placed since the start of
the expression; what carries it is that this always is a chain that reaches up to the token here.
-/

namespace Squirrel

/-- The kinds of the tokens that start a suffix. -/
def Suffix.Starts (found : Suffix) (kind : Kind) : Prop :=
  match found with
  | member => kind = .dot
  | index => kind = .bracketOpen
  | call => kind = .parenOpen
  | increment => Grammar.isIncrement kind = true
  | ternary => kind = .question
  | assignment => kind = .equals
  | update => Grammar.isUpdate kind = true
  | binary power => Power.binary? kind = some power

theorem Suffix.starts_of_of? {power : Nat} {afterLineBreak : Bool} {kind : Kind} {found : Suffix}
    (hof : of? power afterLineBreak kind = some found) : found.Starts kind := by
  revert hof
  fun_cases of? power afterLineBreak kind
  all_goals
    intro hof
    cases hof
  all_goals first
    | rfl
    | assumption

namespace Grammar

open Word Rule

variable {readCall : Nonterminal → View → Option View} (hcalls : SoundCalls readCall) {view : View}

include hcalls

/-! ### Operands -/

theorem sound_parenthesized (hhere : here view.words = .parenOpen) :
    parenthesized.Ensures readCall view fun _ after => view.Reads [.part .parenthesized] after := by
  refine ensures_node .parenthesized fun start hwords _ => ?_
  refine ensures_bind (ensures_open (hwords ▸ hhere) fun opened hopen => ?_)
  refine ensures_bind (ensures_call fun between hinner => ?_)
  exact ensures_close fun after _ hclose => hopen.append ((hcalls.expression hinner).append hclose)

theorem sound_prefixed {tableAllowed : Bool} (hsettled : view.Settled)
    (hhere : TokenSet.prefixOperators.contains (here view.words) = true)
    (hnumber : ¬(here view.words = .minus ∧ NumberFollows view.words)) :
    prefixed.Ensures readCall view fun _ after => view.Reads [.part (.operand tableAllowed)] after := by
  refine ensures_node .prefixed fun start hwords hstart => ?_
  refine ensures_bind (ensures_wordIn (hstart hsettled) (hwords ▸ hhere) fun started hoperator => ?_)
  refine ensures_call fun after hoperand => ?_
  exact .check (hwords ▸ hnumber) (hoperator.append (hcalls.expression hoperand))

theorem sound_keywordOperand {tableAllowed : Bool} {kind keyword : Kind} (hsettled : view.Settled)
    (hhere : here view.words = keyword) (hkeyword : keywordNode? keyword = some kind) :
    (keywordOperand kind).Ensures readCall view fun _ after => view.Reads [.part (.operand tableAllowed)] after := by
  refine ensures_node (.keyword hkeyword) fun start hwords hstart => ?_
  refine ensures_bind (ensures_keyword (hstart hsettled) (hwords ▸ hhere) fun started hstarted _ => ?_)
  exact ensures_call fun after hoperand => hstarted.append (hcalls.expression hoperand)

theorem sound_operand (tableAllowed : Bool) : (operand tableAllowed).Ensures readCall view fun answer after =>
    answer = true → view.Reads [.part (.operand tableAllowed)] after := by
  have hsettled := view.settled_passTrivia
  have hsame := view.words_passTrivia
  rw [operand]
  refine ensures_bind (ensures_current ?_)
  -- it is enough to read an operand from behind the trivia
  have hwhole {rule : Rule Unit} (hrule : rule.Ensures readCall view.passTrivia fun _ after =>
      view.passTrivia.Reads [.part (.operand tableAllowed)] after) :
      (do rule; return true : Rule Bool).Ensures readCall view.passTrivia fun answer after =>
        answer = true → view.Reads [.part (.operand tableAllowed)] after :=
    ensures_then hrule fun _ after hreads => ensures_pure fun _ => .of_passTrivia hreads
  split
  case h_1 hhere =>
    refine ensures_bind (ensures_numberFollows (fun hfollows => ?_) fun hfollows => ?_)
    · rw [hsettled]
      refine hwhole (ensures_mono (sound_negativeLiteral hsettled (hsame ▸ hhere) hfollows) fun _ after hnumber => ?_)
      exact .bare .operandNegative hnumber
    · rw [hsettled]
      exact hwhole (sound_prefixed hcalls hsettled (by rw [hsame, hhere]; decide) fun hminus => hfollows hminus.2)
  case h_2 hhere | h_3 hhere | h_4 hhere | h_5 hhere | h_6 hhere =>
    refine hwhole (sound_prefixed hcalls hsettled (by rw [hsame, hhere]; decide) fun hminus => ?_)
    rw [hsame, hhere] at hminus
    simp at hminus
  case h_7 hhere =>
    refine hwhole (ensures_mono (sound_parenthesized hcalls (hsame ▸ hhere)) fun _ after hinner => ?_)
    exact .bare .operandParenthesized hinner
  case h_8 hhere =>
    refine hwhole (ensures_mono (sound_array hcalls (hsame ▸ hhere)) fun _ after harray => ?_)
    exact .bare .operandArray harray
  case h_9 hhere =>
    refine hwhole ?_
    cases tableAllowed with
    | true =>
      refine ensures_mono (sound_table hcalls (hsame ▸ hhere)) fun _ after htable => ?_
      exact .bare .operandTable htable
    | false => exact ensures_of_none_bind (read_reportHere ..)
  case h_10 hhere =>
    refine hwhole (ensures_node .identifier fun start hwords hstart => ?_)
    exact ensures_keyword (hstart hsettled) (hwords ▸ hsame ▸ hhere) fun after hname _ => hname
  case h_11 hhere =>
    refine hwhole (ensures_node .globalVariable fun start hwords hstart => ?_)
    refine ensures_bind (ensures_keyword (hstart hsettled) (hwords ▸ hsame ▸ hhere) fun started hcolons _ => ?_)
    exact ensures_bind (ensures_expect fun after hname => ensures_pure (hcolons.append hname))
  case h_12 hhere =>
    refine hwhole (ensures_node .lambda fun start hwords hstart => ?_)
    refine ensures_bind (ensures_keyword (hstart hsettled) (hwords ▸ hsame ▸ hhere) fun started hat _ => ?_)
    refine ensures_then (sound_parameters hcalls) fun _ between hparameters => ?_
    exact ensures_call fun after hbody => hat.append (hparameters.append (hcalls.expression hbody))
  case h_13 hhere =>
    refine hwhole (ensures_node .anonymousFunction fun start hwords hstart => ?_)
    refine ensures_bind (ensures_keyword (hstart hsettled) (hwords ▸ hsame ▸ hhere) fun started hkeyword _ => ?_)
    refine ensures_then (sound_parameters hcalls) fun _ between hparameters => ?_
    exact ensures_mono (sound_body hcalls _) fun _ after hbody => hkeyword.append (hparameters.append hbody)
  case h_14 hhere | h_15 hhere | h_16 hhere =>
    exact hwhole (sound_keywordOperand hcalls hsettled (hsame ▸ hhere) rfl)
  case h_17 hhere =>
    refine hwhole (ensures_node .rawcall fun start hwords hstart => ?_)
    refine ensures_bind (ensures_keyword (hstart hsettled) (hwords ▸ hsame ▸ hhere) fun started hkeyword _ => ?_)
    exact ensures_mono (sound_callArguments hcalls) fun _ after harguments => hkeyword.append harguments
  case h_18 hhere => exact hwhole (ensures_of_none (read_advanceGarbage (hsame ▸ hhere)))
  case h_19 =>
    refine ensures_mono (sound_literal hsettled (congrArg here hsame)) fun answer after hliteral htrue => ?_
    rw [htrue, if_pos rfl] at hliteral
    exact .of_passTrivia (.bare .operandLiteral hliteral)

/-! ### Suffixes -/

theorem sound_suffix {found : Suffix} (hsettled : view.Settled) (hstarts : found.Starts (here view.words)) :
    (suffix found).Ensures readCall view fun _ after => view.Reads [.part (.suffix found)] after := by
  cases found with
  | member =>
    refine ensures_bind (ensures_keyword hsettled hstarts fun started hdot _ => ?_)
    exact ensures_bind (ensures_expect fun after hname => ensures_pure (.bare .suffixMember (hdot.append hname)))
  | index =>
    refine ensures_bind (ensures_open hstarts fun opened hopen => ?_)
    refine ensures_bind (ensures_call fun between hindex => ?_)
    refine ensures_close fun after _ hclose => ?_
    exact .bare .suffixIndex (hopen.append ((hcalls.expression hindex).append hclose))
  | call => exact ensures_mono (sound_callArguments hcalls) fun _ after harguments => .bare .suffixCall harguments
  | increment => exact ensures_wordIn hsettled hstarts fun after hsign => .bare .suffixIncrement hsign
  | ternary =>
    refine ensures_bind (ensures_keyword hsettled hstarts fun started hquestion _ => ?_)
    refine ensures_bind (ensures_call fun first hfirst => ?_)
    refine ensures_bind (ensures_expect fun second hcolon => ?_)
    refine ensures_call fun after hsecond => ?_
    exact .bare .suffixTernary
      (hquestion.append ((hcalls.expression hfirst).append (hcolon.append (hcalls.expression hsecond))))
  | assignment =>
    refine ensures_bind (ensures_keyword hsettled hstarts fun started hsign _ => ?_)
    exact ensures_call fun after hvalue => .bare .suffixAssignment (hsign.append (hcalls.expression hvalue))
  | update =>
    refine ensures_bind (ensures_wordIn hsettled hstarts fun started hsign => ?_)
    exact ensures_call fun after hvalue => .bare .suffixUpdate (hsign.append (hcalls.expression hvalue))
  | binary power =>
    have hstarts : (Power.binary? (here view.words) == some power) = true := beq_iff_eq.mpr hstarts
    refine ensures_bind (ensures_wordIn hsettled ?_ fun started
      (hsign : view.Reads [.wordIn fun kind => Power.binary? kind == some power] started) => ?_)
    · exact hstarts
    exact ensures_call fun after hright => .bare (.suffixBinary power) (hsign.append (hcalls.expression hright))

/-! ### The operator loop -/

omit hcalls in
theorem suffix?_eq (power : Nat) :
    Suffix.of? power view.passTrivia.afterLineBreak (here view.words) = suffix? power view.words := by
  cases hwords : view.words with
  | nil => rfl
  | cons word rest => rw [View.afterLineBreak_eq hwords, here_cons, suffix?, List.head?_cons, Option.bind_some]

omit hcalls in
theorem starts_of_suffix? {power : Nat} {words : List Word} {found : Suffix}
    (hfound : suffix? power words = some found) : found.Starts (here words) := by
  cases words with
  | nil => simp [suffix?] at hfound
  | cons word rest => exact Suffix.starts_of_of? hfound

theorem sound_operators {start power : Nat} {tableAllowed : Bool} {since base : List Tree} {words : List Word}
    (htidy : view.Tidy) (hplaced : view.placed = since ++ base) (hstart : base.length = start)
    (hchain : Derives [.part (.chain power tableAllowed)] words view.words (Tree.items since.reverse)) :
    (operators start power).Ensures readCall view fun _ after =>
      after.Tidy ∧ ∃ since', after.placed = since' ++ base ∧
        Derives [.part (.expression power tableAllowed)] words after.words (Tree.items since'.reverse) := by
  have hsettled := view.settled_passTrivia
  have hsame := view.words_passTrivia
  have hpassed : view.passTrivia.Tidy := (view.places_passTrivia htidy).1
  -- a chain that no suffix follows is a whole expression
  have hdone (hnone : suffix? power view.words = none) :
      Derives [.part (.expression power tableAllowed)] words view.words (Tree.items since.reverse) := by
    have hitems := hchain.append (.guard (fun words => suffix? power words = none) hnone)
    rw [List.append_nil] at hitems
    exact .phrase .expression hitems rfl
  rw [operators]
  refine ensures_bind (ensures_stopped (fun hahead => ensures_pure ⟨htidy, since, hplaced, hdone ?_⟩) fun _ => ?_)
  · rw [View.words, hahead]
    rfl
  refine ensures_bind (ensures_current (ensures_bind fun broken between hbroken => ?_))
  rw [read_ofStep, Step.read, hsettled, Option.some.injEq, Prod.mk.injEq] at hbroken
  obtain ⟨rfl, rfl⟩ := hbroken
  rw [suffix?_eq]
  split
  · next hnone => exact ensures_pure ⟨hpassed, since, hplaced, hsame ▸ hdone hnone⟩
  · next found hfound =>
    have hinner : ({ view.passTrivia with placed := since } : View).Settled :=
      View.passTrivia_eq_self fun _ hmem => View.isTrivia_of_head?_dropWhile hmem
    have hwords : ({ view.passTrivia with placed := since } : View).words = view.words := hsame
    refine ensures_bind (ensures_nodeFrom hplaced hstart ?_)
    refine ensures_mono (sound_suffix hcalls hinner (hwords ▸ starts_of_suffix? hfound)) fun _ stop hsuffix => ?_
    obtain ⟨parts, hderives, hplaces⟩ := hsuffix
    obtain ⟨hstop, new, hnew, hparts⟩ := hplaces hpassed
    rw [hwords] at hderives
    refine ensures_call fun after hrest => ?_
    refine hcalls.operators hrest hstop (List.singleton_append).symm hstart rfl ?_
    -- the chain so far and the suffix make a longer chain
    have hlonger := hchain.append
      (Derives.append (.guard (fun words => suffix? power words = some found) hfound) hderives)
    refine .phrase (.chainSuffix found) hlonger ⟨_, ⟨stop.placed.reverse, rfl, ?_⟩, rfl⟩
    rw [hnew, List.reverse_append, Tree.items_append, hparts]
    rfl

theorem sound_expressionOf (power : Nat) (tableAllowed : Bool) :
    (expressionOf power tableAllowed).Ensures readCall view fun _ after =>
      view.Reads [.part (.expression power tableAllowed)] after := by
  rw [expressionOf]
  refine ensures_bind (ensures_descend (ensures_bind (ensures_mark ?_)))
  refine ensures_then (sound_operand hcalls tableAllowed) fun answer between hoperand => ?_
  cases answer with
  | false => exact ensures_of_none_bind (read_reportHere ..)
  | true =>
    obtain ⟨parts, hderives, hplaces⟩ := hoperand rfl
    obtain ⟨htidy, new, hnew, hparts⟩ := hplaces view.tidy_placePending
    have hchain : Derives [.part (.chain power tableAllowed)] view.words between.words (Tree.items new.reverse) := by
      rw [hparts]
      exact .phrase .chainOperand hderives rfl
    refine ensures_bind (ensures_call fun stop hoperators => ensures_ascend ?_)
    obtain ⟨hstop, since, hplaced, hexpression⟩ := hcalls.operators hoperators htidy hnew rfl rfl hchain
    refine ⟨Tree.items since.reverse, hexpression, fun hview => ⟨hstop, ?_⟩⟩
    refine ⟨since ++ view.pending.map State.leafOf, ?_, ?_⟩
    · rw [hplaced, List.append_assoc]
      rfl
    · rw [List.reverse_append, Tree.items_append, hview.items_leafOf, List.nil_append]

/-! ### Table slots -/

theorem sound_slot (hsettled : view.Settled) :
    slot.Ensures readCall view fun _ after => view.Reads [.part .slot] after := by
  refine ensures_anyNode fun start hwords hstart => ?_
  have hstart := hstart hsettled
  refine ensures_bind (ensures_current ?_)
  rw [hstart]
  refine ensures_bind fun second between hnext => ?_
  rw [read_ofStep, Step.read, View.kindOf_next, hstart, Option.some.injEq, Prod.mk.injEq] at hnext
  obtain ⟨rfl, rfl⟩ := hnext
  split
  case isTrue hnamed =>
    simp only [Bool.and_eq_true, beq_iff_eq] at hnamed
    refine ensures_bind (ensures_keyword hstart hnamed.1 fun named hname _ => ?_)
    refine ensures_bind (ensures_expect fun valued hequals => ?_)
    refine ensures_call fun after hvalue => ?_
    exact ⟨_, .namedSlot, hname.append (hequals.append (hcalls.expression hvalue))⟩
  case isFalse hnamed =>
  split
  case isTrue hcomputed =>
    refine ensures_bind (ensures_open (beq_iff_eq.mp hcomputed) fun opened hopen => ?_)
    refine ensures_bind (ensures_call fun named hkey => ?_)
    refine ensures_bind (ensures_close fun closed _ hclose => ?_)
    refine ensures_bind (ensures_expect fun valued hequals => ?_)
    refine ensures_call fun after hvalue => ?_
    exact ⟨_, .computedSlot,
      hopen.append ((hcalls.expression hkey).append (hclose.append (hequals.append (hcalls.expression hvalue))))⟩
  case isFalse hcomputed =>
  split
  case isTrue hmethod =>
    simp only [Bool.and_eq_true, beq_iff_eq] at hmethod
    refine ensures_mono (sound_functionDeclaration hcalls hstart hmethod.1) fun _ after hfunction => ?_
    exact ⟨_, .methodSlot, hfunction⟩
  case isFalse hmethod =>
    have hkeyed : StartsKey start.words := by
      simp only [Bool.and_eq_true, beq_iff_eq] at hnamed hcomputed hmethod
      exact ⟨hnamed, hcomputed, hmethod⟩
    refine ensures_bind (ensures_call fun named hkey => ?_)
    refine ensures_bind (ensures_expect fun valued hcolon => ?_)
    refine ensures_call fun after hvalue => ?_
    exact ⟨_, .keyedSlot,
      .check hkeyed ((hcalls.expression hkey).append (hcolon.append (hcalls.expression hvalue)))⟩

theorem sound_slots : slots.Ensures readCall view fun _ after =>
    here after.words = .braceClose → view.Reads [.part .slots] after := by
  rw [slots]
  refine ensures_bind (ensures_ending (fun _ => ?_) (ensures_currentIs (fun _ => ?_) fun _ => ?_))
  · exact ensures_pure fun _ => .bare .slotsEnd (.nil view)
  · exact ensures_pure fun _ => .bare .slotsEnd (.of_passTrivia (.nil _))
  refine ensures_bind (ensures_startsExpression (fun _ => ?_) fun _ => ensures_of_none_bind (read_recover ..))
  rw [view.settled_passTrivia]
  refine ensures_then (sound_slot hcalls view.settled_passTrivia) fun _ between hslot => ?_
  refine ensures_bind (ensures_optional fun _ second hcomma => ?_)
  refine ensures_call fun after hrest hcloses => ?_
  exact .of_passTrivia (.bare .slotsMore (hslot.append (hcomma.append (hcalls.slots hrest hcloses))))

end Grammar

end Squirrel

import Lox.Proofs.Syntax.Braces
import Lox.Proofs.Syntax.Rereading

/-!
# Exchanging a statement

Where some tokens always derive the statement that others derive, up to its shape,
they can take their place in a program.  What is around the statement is derived
anew, from whatever numbers are next and on whatever lines it stands.
-/

namespace Lox.Grammar

open Lox.Parser

/-- Whatever statement `inner` derives, `inner'` derives one of the same shape, from
any number on, that is not dangling unless the first is. -/
def Exchanges (inner inner' : List Token) : Prop :=
  ∀ (dangling : Bool) (lower upper : Nat) (s : Stmt), Statement dangling lower inner upper s →
    ∀ lower' : Nat, ∃ (dangling' : Bool) (upper' : Nat) (s' : Stmt), (dangling' → dangling) ∧
      Statement dangling' lower' inner' upper' s' ∧ s.Matches .shape s'

variable {inner inner' : List Token}

mutual

theorem StatementAround.exchanged (hinner : Exchanges inner inner') {dangling : Bool}
    {lower upper : Nat} {before before' after after' : List Token} {s s₀ : Stmt} :
    StatementAround inner dangling lower before after upper s s₀ →
      Token.AllAlike before before' → Token.AllAlike after after' → ∀ lower' : Nat,
        ∃ (dangling' : Bool) (upper' : Nat) (s' : Stmt), (dangling' → dangling) ∧
          Statement dangling' lower' (before' ++ (inner' ++ after')) upper' s' ∧
          s.Matches .shape s'
  | .here h, .nil, .nil, lower' => by simpa using hinner _ _ _ _ h lower'
  | .block hopening hbody hclosing, .cons hopening' hbefore, hafter, lower' => by
    obtain ⟨behind', _, rfl, hbehind, hend⟩ := Token.exists_of_append hafter
    rcases hend with _ | @⟨_, closing', _, _, hclosing', _ | _⟩
    obtain ⟨upper', body', hbody', hmatches⟩ := hbody.exchanged hinner hbefore hbehind lower'
    refine ⟨false, upper', _, (nomatch ·), ?_, .block hmatches⟩
    simpa using
      Statement.block (hopening'.is _ ▸ hopening) hbody' (hclosing'.is _ ▸ hclosing)
  | .loop hword hopening hcondition hclosing h, .cons hword' (.cons hopening' hbefore), hafter,
      lower' => by
    obtain ⟨tokens', closing', _, middle, condition', rfl, hclosing', hinside, hcondition', hc⟩ :=
      hcondition.reread_closed hbefore lower'
    obtain ⟨dangling', upper', body', hdangling, h', hb⟩ :=
      h.exchanged hinner hinside hafter middle
    refine ⟨dangling', upper', _, hdangling, ?_, .loop hc hb⟩
    simpa using Statement.loop (hword'.is _ ▸ hword) (hopening'.is _ ▸ hopening) hcondition'
      (hclosing'.is _ ▸ hclosing) h'
  | .forLoop hword hopening hstart htest hsemicolon hstep hclosing h,
      .cons hword' (.cons hopening' hbefore), hafter, lower' => by
    obtain ⟨start', _, rfl, hstart', hclauses⟩ := Token.exists_of_append hbefore
    obtain ⟨test', _, rfl, htest', hbehind⟩ := Token.exists_of_append hclauses
    rcases hbehind with _ | @⟨_, semicolon', _, _, hsemicolon', hlast⟩
    obtain ⟨step', _, rfl, hstep', hinside⟩ := Token.exists_of_append hlast
    rcases hinside with _ | @⟨_, closing', _, _, hclosing', hinside⟩
    obtain ⟨second, initializer', hstart', hi⟩ := hstart.reread hstart' lower'
    obtain ⟨third, condition', htest', hc⟩ := htest.reread htest' second
    obtain ⟨fourth, increment', hstep', hn⟩ := hstep.reread hstep' third
    obtain ⟨dangling', upper', body', hdangling, h', hb⟩ :=
      h.exchanged hinner hinside hafter fourth
    refine ⟨dangling', upper', _, hdangling, ?_, forLoop_matches hi hc hn hb⟩
    simpa using Statement.forLoop (hword'.is _ ▸ hword) (hopening'.is _ ▸ hopening) hstart'
      htest' (hsemicolon'.is _ ▸ hsemicolon) hstep' (hclosing'.is _ ▸ hclosing) h'
  | .branch hword hopening hcondition hclosing h, .cons hword' (.cons hopening' hbefore),
      hafter, lower' => by
    obtain ⟨tokens', closing', _, middle, condition', rfl, hclosing', hinside, hcondition', hc⟩ :=
      hcondition.reread_closed hbefore lower'
    obtain ⟨_, upper', thenBranch', -, h', hb⟩ := h.exchanged hinner hinside hafter middle
    refine ⟨true, upper', _, fun _ => rfl, ?_, .branch hc hb .none⟩
    simpa using Statement.branch (hword'.is _ ▸ hword) (hopening'.is _ ▸ hopening) hcondition'
      (hclosing'.is _ ▸ hclosing) h'
  | .branchThen hword hopening hcondition hclosing h hotherwise helse,
      .cons hword' (.cons hopening' hbefore), hafter, lower' => by
    obtain ⟨tokens', closing', _, middle, condition', rfl, hclosing', hinside, hcondition', hc⟩ :=
      hcondition.reread_closed hbefore lower'
    obtain ⟨behind', _, rfl, hbehind, hfinal⟩ := Token.exists_of_append hafter
    rcases hfinal with _ | @⟨_, otherwise', _, _, hotherwise', hfinal⟩
    obtain ⟨open', next, thenBranch', hopen, h', ht⟩ := h.exchanged hinner hinside hbehind middle
    obtain rfl : open' = false := by simpa using hopen
    obtain ⟨dangling', upper', elseBranch', hdangling, helse', he⟩ := helse.reread hfinal next
    refine ⟨dangling', upper', _, hdangling, ?_, .branch hc ht (.some he)⟩
    simpa using Statement.branchElse (hword'.is _ ▸ hword) (hopening'.is _ ▸ hopening)
      hcondition' (hclosing'.is _ ▸ hclosing) h' (hotherwise'.is _ ▸ hotherwise) helse'
  | .branchElse hword hopening hcondition hclosing hthen hotherwise h,
      .cons hword' (.cons hopening' hbefore), hafter, lower' => by
    obtain ⟨tokens', closing', _, middle, condition', rfl, hclosing', hbehind, hcondition', hc⟩ :=
      hcondition.reread_closed hbefore lower'
    obtain ⟨further', _, rfl, hfurther, hinside⟩ := Token.exists_of_append hbehind
    rcases hinside with _ | @⟨_, otherwise', _, _, hotherwise', hinside⟩
    obtain ⟨open', next, thenBranch', hopen, hthen', ht⟩ := hthen.reread hfurther middle
    obtain rfl : open' = false := by simpa using hopen
    obtain ⟨dangling', upper', elseBranch', hdangling, h', he⟩ :=
      h.exchanged hinner hinside hafter next
    refine ⟨dangling', upper', _, hdangling, ?_, .branch hc ht (.some he)⟩
    simpa using Statement.branchElse (hword'.is _ ▸ hword) (hopening'.is _ ▸ hopening)
      hcondition' (hclosing'.is _ ▸ hclosing) hthen' (hotherwise'.is _ ▸ hotherwise) h'

theorem DeclarationAround.exchanged (hinner : Exchanges inner inner') {dangling : Bool}
    {lower upper : Nat} {before before' after after' : List Token} {s s₀ : Stmt} :
    DeclarationAround inner dangling lower before after upper s s₀ →
      Token.AllAlike before before' → Token.AllAlike after after' → ∀ lower' : Nat,
        ∃ (dangling' : Bool) (upper' : Nat) (s' : Stmt),
          Declaration dangling' lower' (before' ++ (inner' ++ after')) upper' s' ∧
          s.Matches .shape s'
  | .statement h, hbefore, hafter, lower' => by
    obtain ⟨dangling', upper', s', -, h', hmatches⟩ := h.exchanged hinner hbefore hafter lower'
    exact ⟨dangling', upper', s', .statement h', hmatches⟩
  | .function hword h, .cons hword' hbefore, hafter, lower' => by
    obtain ⟨upper', d', h', hmatches⟩ := h.exchanged hinner hbefore hafter lower'
    exact ⟨false, upper', _, .function (hword'.is _ ▸ hword) h', .function hmatches⟩
  | .classDecl hword hname hopening h hclosing,
      .cons hword' (.cons hname' (.cons hopening' hbefore)), hafter, lower' => by
    obtain ⟨behind', _, rfl, hbehind, hend⟩ := Token.exists_of_append hafter
    rcases hend with _ | @⟨_, closing', _, _, hclosing', _ | _⟩
    obtain ⟨upper', methods', h', hmatches⟩ := h.exchanged hinner hbefore hbehind lower'
    refine ⟨false, upper', _, ?_, .classDecl hname' hmatches⟩
    simpa using Declaration.classDecl (hword'.is _ ▸ hword) (hname'.is _ ▸ hname)
      (hopening'.is _ ▸ hopening) h' (hclosing'.is _ ▸ hclosing)

theorem DeclarationsAround.exchanged (hinner : Exchanges inner inner') {lower upper : Nat}
    {before before' after after' : List Token} {ss ss₀ : List Stmt} :
    DeclarationsAround inner lower before after upper ss ss₀ →
      Token.AllAlike before before' → Token.AllAlike after after' → ∀ lower' : Nat,
        ∃ (upper' : Nat) (ss' : List Stmt),
          Declarations lower' (before' ++ (inner' ++ after')) upper' ss' ∧
          List.Forall₂ (Stmt.Matches .shape) ss ss'
  | .head h hrest, hbefore, hafter, lower' => by
    obtain ⟨behind', further', rfl, hbehind, hfurther⟩ := Token.exists_of_append hafter
    obtain ⟨_, middle, s', h', hs⟩ := h.exchanged hinner hbefore hbehind lower'
    obtain ⟨upper', ss', hrest', hss⟩ := hrest.reread hfurther middle
    exact ⟨upper', s' :: ss', by simpa using Declarations.cons h' hrest', .cons hs hss⟩
  | .tail hfirst h, hbefore, hafter, lower' => by
    obtain ⟨tokens', inside', rfl, htokens, hinside⟩ := Token.exists_of_append hbefore
    obtain ⟨_, middle, s', hfirst', hs⟩ := hfirst.reread htokens lower'
    obtain ⟨upper', ss', h', hss⟩ := h.exchanged hinner hinside hafter middle
    exact ⟨upper', s' :: ss', by simpa using Declarations.cons hfirst' h', .cons hs hss⟩

theorem CallableAround.exchanged (hinner : Exchanges inner inner') {lower upper : Nat}
    {before before' after after' : List Token} {d d₀ : FunctionDecl} :
    CallableAround inner lower before after upper d d₀ →
      Token.AllAlike before before' → Token.AllAlike after after' → ∀ lower' : Nat,
        ∃ (upper' : Nat) (d' : FunctionDecl),
          Callable lower' (before' ++ (inner' ++ after')) upper' d' ∧ d.Matches .shape d'
  | .mk hname hopening hparameters hclosing hbrace h hlast,
      .cons hname' (.cons hopening' hbefore), hafter, lower' => by
    obtain ⟨tokens', _, rfl, htokens, hinside⟩ := Token.exists_of_append hbefore
    rcases hinside with _ | @⟨_, closing', _, _, hclosing', hinside⟩
    rcases hinside with _ | @⟨_, brace', _, _, hbrace', hinside⟩
    obtain ⟨behind', _, rfl, hbehind, hend⟩ := Token.exists_of_append hafter
    rcases hend with _ | @⟨_, last', _, _, hlast', _ | _⟩
    obtain ⟨parameters', hparameters', hp⟩ := hparameters.reread htokens
    obtain ⟨upper', body', h', hb⟩ := h.exchanged hinner hinside hbehind lower'
    refine ⟨upper', _, ?_, .mk hname' hp hb⟩
    simpa using Callable.mk (hname'.is _ ▸ hname) (hopening'.is _ ▸ hopening) hparameters'
      (hclosing'.is _ ▸ hclosing) (hbrace'.is _ ▸ hbrace) h' (hlast'.is _ ▸ hlast)

theorem MethodsAround.exchanged (hinner : Exchanges inner inner') {lower upper : Nat}
    {before before' after after' : List Token} {ds ds₀ : List FunctionDecl} :
    MethodsAround inner lower before after upper ds ds₀ →
      Token.AllAlike before before' → Token.AllAlike after after' → ∀ lower' : Nat,
        ∃ (upper' : Nat) (ds' : List FunctionDecl),
          Methods lower' (before' ++ (inner' ++ after')) upper' ds' ∧
          List.Forall₂ (FunctionDecl.Matches .shape) ds ds'
  | .head h hrest, hbefore, hafter, lower' => by
    obtain ⟨behind', further', rfl, hbehind, hfurther⟩ := Token.exists_of_append hafter
    obtain ⟨middle, d', h', hd⟩ := h.exchanged hinner hbefore hbehind lower'
    obtain ⟨upper', ds', hrest', hds⟩ := hrest.reread hfurther middle
    exact ⟨upper', d' :: ds', by simpa using Methods.cons h' hrest', .cons hd hds⟩
  | .tail hfirst h, hbefore, hafter, lower' => by
    obtain ⟨tokens', inside', rfl, htokens, hinside⟩ := Token.exists_of_append hbefore
    obtain ⟨middle, d', hfirst', hd⟩ := hfirst.reread htokens lower'
    obtain ⟨upper', ds', h', hds⟩ := h.exchanged hinner hinside hafter middle
    exact ⟨upper', d' :: ds', by simpa using Methods.cons hfirst' h', .cons hd hds⟩

end

end Lox.Grammar

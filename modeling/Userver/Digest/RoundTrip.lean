import Userver.Digest.Parser

/-!
# Headers the directive parser reads back

A client that writes each directive as `name="value"`, with `"` and `\` escaped inside the quotes,
one blank after `Digest` and `, ` between directives, is understood by `ParseAuthInfo`: when the
directives are known, none is repeated and the mandatory ones are all there, the parsed context
is the one the directives describe (`parseAuthInfo_renderAuthorization`).

The proof follows the automaton through one directive at a time: the name through
`kStateSpace` and `kStateToken`, the quoted value through `kStateValueQuoted` and
`kStateValueEscape`, the push on the closing quote, and `, ` back to `kStateSpace`.
-/

namespace Userver

namespace Digest

open ClientDirectiveTypes

/-- The bytes of a directive's name. -/
def ClientDirectiveTypes.nameBytes (t : ClientDirectiveTypes) : List UInt8 :=
  (t.name?.getD "").toList.map Char.toUInt8

/-- A byte that `kStateSpace` starts a token with and `kStateToken` adds to it. -/
def isTokenChar (c : UInt8) : Bool :=
  isAlnum c || c = '_'.toUInt8 || c = '-'.toUInt8

/-- The bytes of a value inside quotes: `"` and `\` behind a backslash. -/
def escapeQuoted (v : List UInt8) : List UInt8 :=
  v.flatMap fun c => if c = '"'.toUInt8 ∨ c = '\\'.toUInt8 then ['\\'.toUInt8, c] else [c]

/-- `name="value"`. -/
def renderDirective (d : ClientDirectiveTypes × List UInt8) : List UInt8 :=
  d.1.nameBytes ++ '='.toUInt8 :: '"'.toUInt8 :: (escapeQuoted d.2 ++ ['"'.toUInt8])

/-- The `Authorization` header a client writes for the directives `ds`. -/
def renderAuthorization : List (ClientDirectiveTypes × List UInt8) → List UInt8
  | [] => kDigestWord ++ [' '.toUInt8]
  | d :: ds =>
    kDigestWord ++ ' '.toUInt8 ::
      (renderDirective d ++ ds.flatMap fun d => ','.toUInt8 :: ' '.toUInt8 :: renderDirective d)

/-- The counters after one push for each directive of `ds`. -/
def countDirectives (ds : List (ClientDirectiveTypes × List UInt8))
    (counter : ClientDirectiveTypes → Nat) : ClientDirectiveTypes → Nat :=
  ds.foldl (fun counter d => Function.update counter d.1 (counter d.1 + 1)) counter

/-- The context the directives `ds` describe, each assigned in turn. -/
def contextOf (ds : List (ClientDirectiveTypes × List UInt8)) (ctx : ContextFromClient) :
    ContextFromClient :=
  ds.foldl (fun ctx d => ctx.set d.2 d.1) ctx

/-! ## The names -/

theorem ofToken_nameBytes (t : ClientDirectiveTypes) : ofToken t.nameBytes = t := by
  cases t <;> decide

theorem nameBytes_isTokenChar (t : ClientDirectiveTypes) : ∀ c ∈ t.nameBytes, isTokenChar c := by
  have h : t.nameBytes.all isTokenChar := by cases t <;> rfl
  simpa using h

theorem nameBytes_ne_nil {t : ClientDirectiveTypes} (ht : t ≠ kUnknown) : t.nameBytes ≠ [] := by
  cases t <;> first | decide | exact absurd rfl ht

theorem ne_equals_of_isTokenChar {c : UInt8} (hc : isTokenChar c) : c ≠ '='.toUInt8 := by
  rintro rfl
  exact absurd hc (by decide)

/-! ## One step at a time -/

section Steps

variable {tok val : List UInt8} {ctx : ContextFromClient} {counter : ClientDirectiveTypes → Nat}

theorem step_space_tokenChar {c : UInt8} (hc : isTokenChar c) :
    step ⟨.kStateSpace, tok, val, ctx, counter⟩ c =
      .ok ⟨.kStateToken, tok ++ [c], val, ctx, counter⟩ := by
  simp only [isTokenChar] at hc
  simp only [step, hc, if_true]
  rfl

theorem step_token_tokenChar {c : UInt8} (hc : isTokenChar c) :
    step ⟨.kStateToken, tok, val, ctx, counter⟩ c =
      .ok ⟨.kStateToken, tok ++ [c], val, ctx, counter⟩ := by
  have hne := ne_equals_of_isTokenChar hc
  simp only [isTokenChar] at hc
  simp only [step, hne, hc, if_false, if_true]
  rfl

/-- The bytes of a token after its first, read in `kStateToken`. -/
theorem foldlM_step_token :
    ∀ (name tok : List UInt8), (∀ c ∈ name, isTokenChar c) →
      name.foldlM step ⟨.kStateToken, tok, val, ctx, counter⟩ =
        .ok ⟨.kStateToken, tok ++ name, val, ctx, counter⟩
  | [], tok, _ => by simp; rfl
  | c :: name, tok, hname => by
    rw [List.foldlM_cons, step_token_tokenChar (hname c List.mem_cons_self)]
    rw [show tok ++ c :: name = (tok ++ [c]) ++ name by simp]
    exact foldlM_step_token name _ fun c hc => hname c (List.mem_cons_of_mem _ hc)

/-- A value written by `escapeQuoted` is read back inside the quotes. -/
theorem foldlM_step_escapeQuoted :
    ∀ (v val : List UInt8),
      (escapeQuoted v).foldlM step ⟨.kStateValueQuoted, tok, val, ctx, counter⟩ =
        .ok ⟨.kStateValueQuoted, tok, val ++ v, ctx, counter⟩
  | [], val => by simp [escapeQuoted]; rfl
  | c :: v, val => by
    have hrest := foldlM_step_escapeQuoted v (val ++ [c])
    simp only [escapeQuoted, List.flatMap_cons, List.foldlM_append] at hrest ⊢
    rw [show val ++ c :: v = (val ++ [c]) ++ v by simp, ← hrest]
    -- a quote or a backslash comes behind a backslash, any other byte as it is
    by_cases hc : c = '"'.toUInt8 ∨ c = '\\'.toUInt8
    · rw [if_pos hc]
      rfl
    · rw [if_neg hc]
      have hq : c ≠ '"'.toUInt8 := fun h => hc (.inl h)
      have hb : c ≠ '\\'.toUInt8 := fun h => hc (.inr h)
      simp only [List.foldlM_cons, List.foldlM_nil, step, hq, hb, if_false]
      rfl

/-- `, ` after a directive leads back to `kStateSpace`. -/
theorem foldlM_step_separator :
    [','.toUInt8, ' '.toUInt8].foldlM step ⟨.kStateComma, tok, val, ctx, counter⟩ =
      .ok ⟨.kStateSpace, tok, val, ctx, counter⟩ := rfl

end Steps

/-- One directive `name="value"` read from `kStateSpace` is pushed to the context. -/
theorem foldlM_step_renderDirective (ctx : ContextFromClient)
    (counter : ClientDirectiveTypes → Nat) {d : ClientDirectiveTypes × List UInt8}
    (hd : d.1 ≠ kUnknown) :
    (renderDirective d).foldlM step ⟨.kStateSpace, [], [], ctx, counter⟩ =
      .ok ⟨.kStateComma, [], [], ctx.set d.2 d.1,
        Function.update counter d.1 (counter d.1 + 1)⟩ := by
  obtain ⟨t, v⟩ := d
  obtain ⟨c, name, hname⟩ := List.exists_cons_of_ne_nil (nameBytes_ne_nil hd)
  have hchars := nameBytes_isTokenChar t
  rw [hname] at hchars
  -- the name: its first byte starts the token, the others extend it
  have hnameRead : (c :: name).foldlM step ⟨.kStateSpace, [], [], ctx, counter⟩ =
      .ok ⟨.kStateToken, c :: name, [], ctx, counter⟩ := by
    rw [List.foldlM_cons, step_space_tokenChar (hchars c List.mem_cons_self)]
    exact foldlM_step_token name [c] fun c' hc' => hchars c' (List.mem_cons_of_mem _ hc')
  -- the closing quote pushes the directive
  have hpush : step ⟨.kStateValueQuoted, c :: name, v, ctx, counter⟩ '"'.toUInt8 =
      .ok ⟨.kStateComma, [], [], ctx.set v t, Function.update counter t (counter t + 1)⟩ := by
    have hof : ofToken (c :: name) = t := hname ▸ ofToken_nameBytes t
    simp only [step, pushToClientContext, hof, hd, if_false]
    rfl
  have hequals : step ⟨.kStateToken, c :: name, [], ctx, counter⟩ '='.toUInt8 =
      .ok ⟨.kStateEquals, c :: name, [], ctx, counter⟩ := rfl
  have hopen : step ⟨.kStateEquals, c :: name, [], ctx, counter⟩ '"'.toUInt8 =
      .ok ⟨.kStateValueQuoted, c :: name, [], ctx, counter⟩ := rfl
  have hvalue : (escapeQuoted v).foldlM step ⟨.kStateValueQuoted, c :: name, [], ctx, counter⟩ =
      .ok ⟨.kStateValueQuoted, c :: name, [] ++ v, ctx, counter⟩ :=
    foldlM_step_escapeQuoted v []
  simp only [renderDirective, hname, List.foldlM_append, hnameRead, List.foldlM_cons,
    List.foldlM_nil, Codec.ok_bind, hequals, hopen, hvalue, List.nil_append, hpush]
  rfl

/-- The directives after the first, each behind `, `, read from `kStateComma`. -/
theorem foldlM_step_renderDirectives :
    ∀ (ds : List (ClientDirectiveTypes × List UInt8)) (ctx : ContextFromClient)
      (counter : ClientDirectiveTypes → Nat), (∀ d ∈ ds, d.1 ≠ kUnknown) →
      (ds.flatMap fun d => ','.toUInt8 :: ' '.toUInt8 :: renderDirective d).foldlM step
          ⟨.kStateComma, [], [], ctx, counter⟩ =
        .ok ⟨.kStateComma, [], [], contextOf ds ctx, countDirectives ds counter⟩
  | [], _, _, _ => rfl
  | d :: ds, ctx, counter, hds => by
    have hd := hds d List.mem_cons_self
    simp only [List.flatMap_cons, List.foldlM_append]
    rw [show ','.toUInt8 :: ' '.toUInt8 :: renderDirective d =
      [','.toUInt8, ' '.toUInt8] ++ renderDirective d from rfl, List.foldlM_append,
      foldlM_step_separator]
    change (renderDirective d).foldlM step _ >>= _ = _
    rw [foldlM_step_renderDirective ctx counter hd]
    exact foldlM_step_renderDirectives ds _ _ fun d' hd' => hds d' (List.mem_cons_of_mem _ hd')

/-! ## The counters -/

theorem countDirectives_apply :
    ∀ (ds : List (ClientDirectiveTypes × List UInt8)) (counter : ClientDirectiveTypes → Nat)
      (t : ClientDirectiveTypes), countDirectives ds counter t = counter t + (ds.map Prod.fst).count t
  | [], _, _ => rfl
  | d :: ds, counter, t => by
    rw [countDirectives, List.foldl_cons, ← countDirectives, countDirectives_apply ds,
      List.map_cons, List.count_cons]
    by_cases h : d.1 = t
    · subst h
      simp
      omega
    · simp [Function.update_of_ne (Ne.symm h), h]

theorem checkMandatoryDirectivesPresent_ok {counter : ClientDirectiveTypes → Nat}
    (h : ∀ t ∈ kMandatoryDirectives, counter t ≠ 0) :
    checkMandatoryDirectivesPresent counter = .ok () := by
  have hnil : kMandatoryDirectives.filter (fun t => counter t = 0) = [] :=
    List.filter_eq_nil_iff.mpr fun t ht => by simpa using h t ht
  simp [checkMandatoryDirectivesPresent, hnil, pure, Except.pure]

theorem checkDuplicateDirectivesExist_ok {counter : ClientDirectiveTypes → Nat}
    (h : ∀ t, counter t ≤ 1) : checkDuplicateDirectivesExist counter = .ok () := by
  have hnone : counted.find? (fun t => counter t > 1) = none :=
    List.find?_eq_none.mpr fun t _ => by simpa using h t
  simp [checkDuplicateDirectivesExist, hnone, pure, Except.pure]

/-- A header written as a client writes it is read back: the parsed context is the one its
directives describe, when they are known, distinct, and include the mandatory ones. -/
theorem parseAuthInfo_renderAuthorization (ds : List (ClientDirectiveTypes × List UInt8))
    (hknown : ∀ d ∈ ds, d.1 ≠ kUnknown) (hnodup : (ds.map Prod.fst).Nodup)
    (hmandatory : ∀ t ∈ kMandatoryDirectives, t ∈ ds.map Prod.fst) :
    parseAuthInfo (renderAuthorization ds) = .ok (contextOf ds {}) := by
  obtain ⟨d, ds', rfl⟩ : ∃ d ds', ds = d :: ds' := by
    cases ds with
    | nil => exact absurd (hmandatory kRealm (by decide)) (by simp)
    | cons d ds' => exact ⟨d, ds', rfl⟩
  have hd := hknown d List.mem_cons_self
  have hsub : substr (renderAuthorization (d :: ds')) (kDigestWord.length + 1) =
      .ok (renderDirective d ++
        ds'.flatMap fun d => ','.toUInt8 :: ' '.toUInt8 :: renderDirective d) := by
    simp [substr, renderAuthorization, pure, Except.pure]
  -- the counters count each directive once
  have hcount : ∀ t, countDirectives (d :: ds') ParseState.initial.directivesCounter t =
      ((d :: ds').map Prod.fst).count t := fun t => by
    simp [countDirectives_apply, ParseState.initial]
  have hread : (renderDirective d ++
      ds'.flatMap fun d => ','.toUInt8 :: ' '.toUInt8 :: renderDirective d).foldlM step
        ParseState.initial =
      .ok ⟨.kStateComma, [], [], contextOf (d :: ds') {},
        countDirectives (d :: ds') ParseState.initial.directivesCounter⟩ := by
    rw [List.foldlM_append]
    change (renderDirective d).foldlM step ⟨.kStateSpace, [], [], {}, fun _ => 0⟩ >>= _ = _
    rw [foldlM_step_renderDirective {} (fun _ => 0) hd]
    exact foldlM_step_renderDirectives ds' _ _ fun d' hd' => hknown d' (List.mem_cons_of_mem _ hd')
  have hmand : checkMandatoryDirectivesPresent
      (countDirectives (d :: ds') ParseState.initial.directivesCounter) = .ok () :=
    checkMandatoryDirectivesPresent_ok fun t ht => by
      rw [hcount]
      exact (List.count_pos_iff.mpr (hmandatory t ht)).ne'
  have hdup : checkDuplicateDirectivesExist
      (countDirectives (d :: ds') ParseState.initial.directivesCounter) = .ok () :=
    checkDuplicateDirectivesExist_ok fun t => by
      rw [hcount]
      exact List.nodup_iff_count_le_one.mp hnodup t
  simp only [parseAuthInfo, hsub, hread, Codec.ok_bind, reduceCtorEq, if_false, pure,
    Except.pure, ne_eq, not_false_eq_true, not_true_eq_false, and_false, hmand, hdup]

end Digest

end Userver

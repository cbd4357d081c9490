import Harec.Check

/-!
# Induction along the checker's recursion

`check_expression` recurses into the children of a node, and a node's list-valued fields (the
expressions of a block, the bindings of a `let`, the arguments of a call, the items of an
array literal, the fields of a struct literal, the cases of a `switch`) give it lists of
children.  `AstExpression.induction` is the induction principle of that recursion: one case
per expression kind, with the hypothesis for every child, and for every member of each list
of children.

The whole-tree theorems about `checkExpression` are each one induction with this principle,
whose cases are the lemmas about the `check_expr_*` function of each kind.  Those lemmas take
their children as `Child`ren; the `_forall` lemmas below carry a hypothesis about the children's
trees over to the `Child`ren the checker builds for them.
-/

namespace Harec

section Induction

variable {motive : AstExpression → Prop}
  (accessIdentifier : ∀ loc ident, motive (.accessIdentifier loc ident))
  (accessIndex : ∀ loc array index, motive array → motive index → motive (.accessIndex loc array index))
  (accessField : ∀ loc object field, motive object → motive (.accessField loc object field))
  (assert : ∀ loc cond message, (∀ e ∈ cond, motive e) → (∀ e ∈ message, motive e) →
    motive (.assert loc cond message))
  (assign : ∀ loc op indirect object value, motive object → motive value →
    motive (.assign loc op indirect object value))
  (binarithm : ∀ loc op lvalue rvalue, motive lvalue → motive rvalue → motive (.binarithm loc op lvalue rvalue))
  (binding : ∀ loc bindings, (∀ b ∈ bindings, motive b.initializer) → motive (.binding loc bindings))
  (control : ∀ loc type label, motive (.control loc type label))
  (call : ∀ loc lvalue args, motive lvalue → (∀ a ∈ args, motive a.value) → motive (.call loc lvalue args))
  (cast : ∀ loc kind value type, motive value → motive (.cast loc kind value type))
  (constant : ∀ loc storage value array, (∀ i ∈ array, motive i.value) →
    motive (.constant loc storage value array))
  (defer : ∀ loc deferred, motive deferred → motive (.defer loc deferred))
  («for» : ∀ loc label labelLoc bindings cond afterthought body, (∀ e ∈ bindings, motive e) → motive cond →
    (∀ e ∈ afterthought, motive e) → motive body → motive (.for loc label labelLoc bindings cond afterthought body))
  («if» : ∀ loc cond trueBranch falseBranch, motive cond → motive trueBranch → (∀ e ∈ falseBranch, motive e) →
    motive (.if loc cond trueBranch falseBranch))
  (list : ∀ loc exprs, (∀ e ∈ exprs, motive e) → motive (.list loc exprs))
  («match» : ∀ loc, motive (.match loc))
  (measure : ∀ loc op value type, (∀ e ∈ value, motive e) → motive (.measure loc op value type))
  («return» : ∀ loc value, (∀ e ∈ value, motive e) → motive (.return loc value))
  (slice : ∀ loc object start «end», motive object → (∀ e ∈ start, motive e) → (∀ e ∈ «end», motive e) →
    motive (.slice loc object start «end»))
  (struct : ∀ loc autofill typeName fields, (∀ f ∈ fields, motive f.initializer) →
    motive (.struct loc autofill typeName fields))
  (switch : ∀ loc value cases, motive value → (∀ c ∈ cases, (∀ o ∈ c.options, motive o) ∧ motive c.value) →
    motive (.switch loc value cases))
  (unarithm : ∀ loc op operand, motive operand → motive (.unarithm loc op operand))

include accessIdentifier accessIndex accessField assert assign binarithm binding control call cast constant
  defer «for» «if» list «match» measure «return» slice struct switch unarithm

-- The cases reach the list helpers only through their calls back to `AstExpression.induction`.
set_option linter.unusedSectionVars false in
mutual

/-- Induction over syntax trees along the children `check_expression` visits. -/
theorem AstExpression.induction : ∀ e, motive e
  | .accessIdentifier loc ident => accessIdentifier loc ident
  | .accessIndex loc array index =>
      accessIndex loc array index (AstExpression.induction array) (AstExpression.induction index)
  | .accessField loc object field => accessField loc object field (AstExpression.induction object)
  | .assert loc cond message =>
      assert loc cond message (AstExpression.optInduction cond) (AstExpression.optInduction message)
  | .assign loc op indirect object value =>
      assign loc op indirect object value (AstExpression.induction object) (AstExpression.induction value)
  | .binarithm loc op lvalue rvalue =>
      binarithm loc op lvalue rvalue (AstExpression.induction lvalue) (AstExpression.induction rvalue)
  | .binding loc bindings => binding loc bindings (AstExpression.bindingsInduction bindings)
  | .control loc type label => control loc type label
  | .call loc lvalue args =>
      call loc lvalue args (AstExpression.induction lvalue) (AstExpression.argsInduction args)
  | .cast loc kind value type => cast loc kind value type (AstExpression.induction value)
  | .constant loc storage value array =>
      constant loc storage value array (AstExpression.itemsInduction array)
  | .defer loc deferred => defer loc deferred (AstExpression.induction deferred)
  | .for loc label labelLoc bindings cond afterthought body =>
      «for» loc label labelLoc bindings cond afterthought body (AstExpression.optInduction bindings)
        (AstExpression.induction cond) (AstExpression.optInduction afterthought) (AstExpression.induction body)
  | .if loc cond trueBranch falseBranch =>
      «if» loc cond trueBranch falseBranch (AstExpression.induction cond) (AstExpression.induction trueBranch)
        (AstExpression.optInduction falseBranch)
  | .list loc exprs => list loc exprs (AstExpression.listInduction exprs)
  | .match loc => «match» loc
  | .measure loc op value type => measure loc op value type (AstExpression.optInduction value)
  | .return loc value => «return» loc value (AstExpression.optInduction value)
  | .slice loc object start «end» =>
      slice loc object start «end» (AstExpression.induction object) (AstExpression.optInduction start)
        (AstExpression.optInduction «end»)
  | .struct loc autofill typeName fields =>
      struct loc autofill typeName fields (AstExpression.fieldsInduction fields)
  | .switch loc value cases =>
      switch loc value cases (AstExpression.induction value) (AstExpression.casesInduction cases)
  | .unarithm loc op operand => unarithm loc op operand (AstExpression.induction operand)
termination_by structural e => e

theorem AstExpression.optInduction : ∀ (o : Option AstExpression), ∀ e ∈ o, motive e
  | none, _, h => absurd h (Option.not_mem_none _)
  | some e, _, h => by cases h; exact AstExpression.induction e
termination_by structural o => o

theorem AstExpression.listInduction : ∀ (es : List AstExpression), ∀ e ∈ es, motive e
  | [], _, h => absurd h (List.not_mem_nil _)
  | e :: es, e', h => by
    rcases List.mem_cons.mp h with h | h
    · exact h ▸ AstExpression.induction e
    · exact AstExpression.listInduction es e' h
termination_by structural es => es

theorem AstExpression.bindingsInduction :
    ∀ (bs : List (AstBinding AstExpression)), ∀ b ∈ bs, motive b.initializer
  | [], _, h => absurd h (List.not_mem_nil _)
  | b :: bs, b', h => by
    rcases List.mem_cons.mp h with h | h
    · exact h ▸ AstExpression.induction b.initializer
    · exact AstExpression.bindingsInduction bs b' h
termination_by structural bs => bs

theorem AstExpression.argsInduction : ∀ (as : List (AstCallArgument AstExpression)), ∀ a ∈ as, motive a.value
  | [], _, h => absurd h (List.not_mem_nil _)
  | a :: as, a', h => by
    rcases List.mem_cons.mp h with h | h
    · exact h ▸ AstExpression.induction a.value
    · exact AstExpression.argsInduction as a' h
termination_by structural as => as

theorem AstExpression.itemsInduction : ∀ (is : List (AstArrayConstant AstExpression)), ∀ i ∈ is, motive i.value
  | [], _, h => absurd h (List.not_mem_nil _)
  | i :: is, i', h => by
    rcases List.mem_cons.mp h with h | h
    · exact h ▸ AstExpression.induction i.value
    · exact AstExpression.itemsInduction is i' h
termination_by structural is => is

theorem AstExpression.fieldsInduction :
    ∀ (fs : List (AstFieldValue AstExpression)), ∀ f ∈ fs, motive f.initializer
  | [], _, h => absurd h (List.not_mem_nil _)
  | f :: fs, f', h => by
    rcases List.mem_cons.mp h with h | h
    · exact h ▸ AstExpression.induction f.initializer
    · exact AstExpression.fieldsInduction fs f' h
termination_by structural fs => fs

theorem AstExpression.casesInduction :
    ∀ (cs : List (AstSwitchCase AstExpression)), ∀ c ∈ cs, (∀ o ∈ c.options, motive o) ∧ motive c.value
  | [], _, h => absurd h (List.not_mem_nil _)
  | c :: cs, c', h => by
    rcases List.mem_cons.mp h with h | h
    · exact h ▸ ⟨AstExpression.listInduction c.options, AstExpression.induction c.value⟩
    · exact AstExpression.casesInduction cs c' h
termination_by structural cs => cs

end

end Induction

/-! ### The children the checker builds -/

section Children

variable (env : Env) {Q : Child → Prop}

theorem optChild_forall {o : Option AstExpression} (h : ∀ e ∈ o, Q ⟨e, checkExpression env e⟩) :
    ∀ c ∈ optChild env o, Q c := by
  cases o with
  | none => exact fun _ hc => absurd hc (Option.not_mem_none _)
  | some e => rintro _ ⟨⟩; exact h e rfl

theorem children_forall : ∀ {es : List AstExpression}, (∀ e ∈ es, Q ⟨e, checkExpression env e⟩) →
    ∀ c ∈ children env es, Q c
  | [], _, _, hc => absurd hc (List.not_mem_nil _)
  | e :: _, h, c, hc => by
    rcases List.mem_cons.mp hc with rfl | hc
    · exact h e (List.mem_cons_self _ _)
    · exact children_forall (fun e' he' => h e' (List.mem_cons_of_mem _ he')) c hc

theorem bindingChildren_forall : ∀ {bs : List (AstBinding AstExpression)},
    (∀ b ∈ bs, Q ⟨b.initializer, checkExpression env b.initializer⟩) →
      ∀ b ∈ bindingChildren env bs, Q b.initializer
  | [], _, _, hb => absurd hb (List.not_mem_nil _)
  | b :: _, h, b', hb => by
    rcases List.mem_cons.mp hb with rfl | hb
    · exact h b (List.mem_cons_self _ _)
    · exact bindingChildren_forall (fun c hc => h c (List.mem_cons_of_mem _ hc)) b' hb

theorem argChildren_forall : ∀ {as : List (AstCallArgument AstExpression)},
    (∀ a ∈ as, Q ⟨a.value, checkExpression env a.value⟩) → ∀ a ∈ argChildren env as, Q a.value
  | [], _, _, ha => absurd ha (List.not_mem_nil _)
  | a :: _, h, a', ha => by
    rcases List.mem_cons.mp ha with rfl | ha
    · exact h a (List.mem_cons_self _ _)
    · exact argChildren_forall (fun c hc => h c (List.mem_cons_of_mem _ hc)) a' ha

theorem itemChildren_forall : ∀ {is : List (AstArrayConstant AstExpression)},
    (∀ i ∈ is, Q ⟨i.value, checkExpression env i.value⟩) → ∀ i ∈ itemChildren env is, Q i.value
  | [], _, _, hi => absurd hi (List.not_mem_nil _)
  | i :: _, h, i', hi => by
    rcases List.mem_cons.mp hi with rfl | hi
    · exact h i (List.mem_cons_self _ _)
    · exact itemChildren_forall (fun c hc => h c (List.mem_cons_of_mem _ hc)) i' hi

theorem fieldChildren_forall : ∀ {fs : List (AstFieldValue AstExpression)},
    (∀ f ∈ fs, Q ⟨f.initializer, checkExpression env f.initializer⟩) →
      ∀ f ∈ fieldChildren env fs, Q f.initializer
  | [], _, _, hf => absurd hf (List.not_mem_nil _)
  | f :: _, h, f', hf => by
    rcases List.mem_cons.mp hf with rfl | hf
    · exact h f (List.mem_cons_self _ _)
    · exact fieldChildren_forall (fun c hc => h c (List.mem_cons_of_mem _ hc)) f' hf

theorem caseChildren_forall : ∀ {cs : List (AstSwitchCase AstExpression)},
    (∀ c ∈ cs, (∀ o ∈ c.options, Q ⟨o, checkExpression env o⟩) ∧ Q ⟨c.value, checkExpression env c.value⟩) →
      ∀ c ∈ caseChildren env cs, (∀ o ∈ c.options, Q o) ∧ Q c.value
  | [], _, _, hc => absurd hc (List.not_mem_nil _)
  | c :: _, h, c', hc => by
    rcases List.mem_cons.mp hc with rfl | hc
    · have hc := h c (List.mem_cons_self _ _)
      exact ⟨children_forall env hc.1, hc.2⟩
    · exact caseChildren_forall (fun d hd => h d (List.mem_cons_of_mem _ hd)) c' hc

end Children

end Harec

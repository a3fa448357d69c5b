/-
  The braces of the generated header.

  Each emitter closes what it opens, whatever the names and the form of the method are; this is
  computed from its pieces. `OpenNamespaces` opens one namespace for each component of the package and
  two more, `CloseNamespaces` closes three and one for each dot: by different counts, as many.

  Proved: `header_balanced`.
-/
import Urpc.Generator.Emit

namespace Urpc.Generator

open Cxx Template

/-! ## The names -/

def MethodModel.names (m : MethodModel) : List Bytes :=
  [m.name, m.serviceFullName, m.requestType, m.responseType, m.requestInit, m.responseInit, m.path]

/-- The names of a service and of its methods. -/
def ServiceModel.names (s : ServiceModel) : List Bytes :=
  s.name :: s.fullName :: s.methods.flatMap MethodModel.names

/-- Every string of the model. -/
def FileModel.names (f : FileModel) : List Bytes :=
  f.package :: f.sourceFile :: f.services.flatMap ServiceModel.names

theorem names_emitTraits (m : MethodModel) : (emitTraits m).names ⊆ m.names := by
  intro b hb
  change b ∈ [m.name, m.requestType, m.responseType, m.serviceFullName, m.name, m.path,
    m.requestType, m.responseType, m.requestInit, m.responseInit] at hb
  simp only [MethodModel.names, List.mem_cons] at hb ⊢
  tauto

theorem names_emitInterfaceMethod (m : MethodModel) : (emitInterfaceMethod m).names ⊆ m.names := by
  intro b hb
  simp only [emitInterfaceMethod] at hb
  split at hb <;>
    simp only [Text.names, MethodModel.names, List.mem_cons, List.not_mem_nil, or_false] at hb ⊢ <;>
    tauto

theorem names_emitProxyMethod (m : MethodModel) : (emitProxyMethod m).names ⊆ m.names := by
  intro b hb
  simp only [emitProxyMethod] at hb
  split at hb <;>
    simp only [Text.names, MethodModel.names, List.mem_cons, List.not_mem_nil, or_false] at hb ⊢ <;>
    tauto

theorem names_emitRegisterCall (m : MethodModel) : (emitRegisterCall m).names ⊆ m.names := by
  intro b hb
  simp only [emitRegisterCall] at hb
  split at hb <;>
    simp only [Text.names, MethodModel.names, List.mem_cons, List.not_mem_nil, or_false] at hb ⊢ <;>
    tauto

theorem mem_names_separated {emit : MethodModel → Text} {ms : List MethodModel} {b : Bytes}
    (h : b ∈ (separated emit ms).names) : ∃ m ∈ ms, b ∈ (emit m).names := by
  induction ms with
  | nil => cases h
  | cons m ms ih =>
      cases ms with
      | nil => exact ⟨m, List.mem_cons_self, h⟩
      | cons m' ms =>
          change b ∈ Text.names (emit m ++ (Piece.lit "\n" :: (separated emit (m' :: ms) ++ []))) at h
          rw [Text.names_append, List.mem_append, Text.names, List.append_nil] at h
          rcases h with h | h
          · exact ⟨m, List.mem_cons_self, h⟩
          · obtain ⟨x, hx, hb⟩ := ih h
            exact ⟨x, List.mem_cons_of_mem _ hx, hb⟩

/-! ## The emitters

What they do to the depth is computed once, for models without names. -/

/-- A method without names. -/
def anonymous (form : MethodForm) : MethodModel := ⟨[], [], [], [], [], [], [], form⟩

/-- A service without names and methods. -/
def unnamed : ServiceModel := ⟨[], [], []⟩

theorem mem_forms (form : MethodForm) :
    form ∈ [MethodForm.unary, .serverStreaming, .clientStreaming, .bidi] := by
  cases form <;> decide

theorem depth_anonymous : ∀ form ∈ [MethodForm.unary, .serverStreaming, .clientStreaming, .bidi],
    (traitsMembers (anonymous form)).depth 0 = some 0 ∧
      (emitInterfaceMethod (anonymous form)).depth 0 = some 0 ∧
      (emitProxyMethod (anonymous form)).depth 0 = some 0 ∧
      (emitTableEntry (anonymous form)).depth 0 = some 0 ∧
      (emitRegisterMethod (anonymous form)).depth 0 = some 0 := by
  decide +kernel

theorem depth_unnamed :
    ((traitsHead (anonymous .unary)).depth 0 = some 1 ∧ (interfaceHead unnamed).depth 0 = some 1 ∧
      (proxyHead unnamed).depth 0 = some 1 ∧ (registerHead unnamed).depth 0 = some 1) ∧
    ((interfaceComment unnamed).depth 0 = some 0 ∧ (proxyComment unnamed).depth 0 = some 0 ∧
      registerComment.depth 0 = some 0 ∧ (emitPreamble ⟨[], [], []⟩).depth 0 = some 0) ∧
    ((interfaceMembers unnamed).depth 0 = some 0 ∧ (proxyMembers unnamed).depth 0 = some 0 ∧
      (registerBody unnamed).depth 0 = some 0) ∧
    Text.depth 0 ["\n"] = some 0 ∧ Text.depth 1 ["\x7d;\n\n"] = some 0 ∧
      Text.depth 1 ["\x7d\n\n"] = some 0 := by
  decide +kernel

theorem depth_traitsMembers (m : MethodModel) : (traitsMembers m).depth 0 = some 0 := by
  have hsame : Text.SameBraces (traitsMembers m) (traitsMembers (anonymous m.form)) := .of_blank rfl
  exact (hsame 0).trans (depth_anonymous m.form (mem_forms _)).1

theorem depth_emitInterfaceMethod (m : MethodModel) : (emitInterfaceMethod m).depth 0 = some 0 := by
  have hsame : Text.SameBraces (emitInterfaceMethod m) (emitInterfaceMethod (anonymous m.form)) := by
    unfold emitInterfaceMethod anonymous
    cases m.form <;> exact .of_blank rfl
  exact (hsame 0).trans (depth_anonymous m.form (mem_forms _)).2.1

theorem depth_emitProxyMethod (m : MethodModel) : (emitProxyMethod m).depth 0 = some 0 := by
  have hsame : Text.SameBraces (emitProxyMethod m) (emitProxyMethod (anonymous m.form)) := by
    unfold emitProxyMethod anonymous
    cases m.form <;> exact .of_blank rfl
  exact (hsame 0).trans (depth_anonymous m.form (mem_forms _)).2.2.1

theorem depth_emitTableEntry (m : MethodModel) : (emitTableEntry m).depth 0 = some 0 := by
  have hsame : Text.SameBraces (emitTableEntry m) (emitTableEntry (anonymous m.form)) :=
    .of_blank rfl
  exact (hsame 0).trans (depth_anonymous m.form (mem_forms _)).2.2.2.1

theorem depth_emitRegisterMethod (m : MethodModel) : (emitRegisterMethod m).depth 0 = some 0 := by
  have hsame : Text.SameBraces (emitRegisterMethod m) (emitRegisterMethod (anonymous m.form)) := by
    unfold emitRegisterMethod emitRegisterCall anonymous
    cases m.form <;> exact .of_blank rfl
  exact (hsame 0).trans (depth_anonymous m.form (mem_forms _)).2.2.2.2

theorem depth_separated {emit : MethodModel → Text} (h : ∀ m, (emit m).depth 0 = some 0)
    (ms : List MethodModel) : (separated emit ms).depth 0 = some 0 := by
  induction ms with
  | nil => rfl
  | cons m ms ih =>
      cases ms with
      | nil => exact h m
      | cons m' ms =>
          have hsame : Text.SameBraces (separated emit (m :: m' :: ms)) (List.flatten [[], [], []]) :=
            .flatten (.cons (.of_depth (h m)) (.cons (.of_depth depth_unnamed.2.2.2.1)
              (.cons (.of_depth ih) .nil)))
          exact hsame 0

theorem depth_interfaceMembers (s : ServiceModel) : (interfaceMembers s).depth 0 = some 0 := by
  have hmethods := depth_separated depth_emitInterfaceMethod s.methods
  have htable : Text.depth 0 (s.methods.flatMap emitTableEntry) = some 0 :=
    Text.depth_flatMap fun m _ => depth_emitTableEntry m
  have hsame : Text.SameBraces (interfaceMembers s) (interfaceMembers unnamed) :=
    .flatten (.cons (.of_blank rfl) (.cons (.of_depth hmethods) (.cons (.of_blank rfl)
      (.cons (.of_depth htable) (.cons (.of_blank rfl) .nil)))))
  exact (hsame 0).trans depth_unnamed.2.2.1.1

theorem depth_proxyMembers (s : ServiceModel) : (proxyMembers s).depth 0 = some 0 := by
  have hmethods := depth_separated depth_emitProxyMethod s.methods
  have hsame : Text.SameBraces (proxyMembers s) (proxyMembers unnamed) :=
    .flatten (.cons (.of_blank rfl) (.cons (.of_depth hmethods) (.cons (.of_blank rfl) .nil)))
  exact (hsame 0).trans depth_unnamed.2.2.1.2.1

theorem depth_registerBody (s : ServiceModel) : (registerBody s).depth 0 = some 0 := by
  have hmethods : Text.depth 0 (s.methods.flatMap emitRegisterMethod) = some 0 :=
    Text.depth_flatMap fun m _ => depth_emitRegisterMethod m
  have hsame : Text.SameBraces (registerBody s) (registerBody unnamed) :=
    .flatten (.cons (.of_blank rfl) (.cons (.of_depth hmethods) (.cons (.of_blank rfl) .nil)))
  exact (hsame 0).trans depth_unnamed.2.2.1.2.2

/-! The first lines open a brace, and the last ones close it. -/

theorem depth_traitsHead (m : MethodModel) : (traitsHead m).depth 0 = some 1 :=
  (Text.SameBraces.of_blank rfl 0).trans depth_unnamed.1.1

theorem depth_interfaceHead (s : ServiceModel) : (interfaceHead s).depth 0 = some 1 :=
  (Text.SameBraces.of_blank rfl 0).trans depth_unnamed.1.2.1

theorem depth_proxyHead (s : ServiceModel) : (proxyHead s).depth 0 = some 1 :=
  (Text.SameBraces.of_blank rfl 0).trans depth_unnamed.1.2.2.1

theorem depth_registerHead (s : ServiceModel) : (registerHead s).depth 0 = some 1 :=
  (Text.SameBraces.of_blank rfl 0).trans depth_unnamed.1.2.2.2

theorem depth_interfaceComment (s : ServiceModel) : (interfaceComment s).depth 0 = some 0 :=
  (Text.SameBraces.of_blank rfl 0).trans depth_unnamed.2.1.1

theorem depth_proxyComment (s : ServiceModel) : (proxyComment s).depth 0 = some 0 :=
  (Text.SameBraces.of_blank rfl 0).trans depth_unnamed.2.1.2.1

theorem depth_registerComment : registerComment.depth 0 = some 0 := depth_unnamed.2.1.2.2.1

theorem depth_emitPreamble (f : FileModel) : (emitPreamble f).depth 0 = some 0 :=
  (Text.SameBraces.of_blank rfl 0).trans depth_unnamed.2.1.2.2.2

theorem depth_classEnd : Text.depth 1 ["\x7d;\n\n"] = some 0 := depth_unnamed.2.2.2.2.1

theorem depth_functionEnd : Text.depth 1 ["\x7d\n\n"] = some 0 := depth_unnamed.2.2.2.2.2

theorem depth_emitTraits (m : MethodModel) : (emitTraits m).depth 0 = some 0 :=
  Text.depth_enclosed (depth_traitsHead m) (depth_traitsMembers m) depth_classEnd

theorem depth_emitInterface (s : ServiceModel) : (emitInterface s).depth 0 = some 0 := by
  rw [emitInterface, List.flatten_cons, Text.depth_append, depth_interfaceComment,
    Option.bind_some]
  exact Text.depth_enclosed (depth_interfaceHead s) (depth_interfaceMembers s) depth_classEnd

theorem depth_emitProxy (s : ServiceModel) : (emitProxy s).depth 0 = some 0 := by
  rw [emitProxy, List.flatten_cons, Text.depth_append, depth_proxyComment,
    Option.bind_some]
  exact Text.depth_enclosed (depth_proxyHead s) (depth_proxyMembers s) depth_classEnd

theorem depth_emitRegister (s : ServiceModel) : (emitRegister s).depth 0 = some 0 := by
  rw [emitRegister, List.flatten_cons, Text.depth_append, depth_registerComment,
    Option.bind_some]
  exact Text.depth_enclosed (depth_registerHead s) (depth_registerBody s) depth_functionEnd

theorem depth_emitTraitsInto (s : ServiceModel) : (emitTraitsInto s).depth 0 = some 0 :=
  Text.depth_flatMap fun m _ => depth_emitTraits m

theorem depth_emitService (s : ServiceModel) : (emitService s).depth 0 = some 0 := by
  rw [emitService, Text.depth_append, Text.depth_append, Text.depth_append, depth_emitTraitsInto,
    Option.bind_some, depth_emitInterface, Option.bind_some, depth_emitProxy, Option.bind_some,
    depth_emitRegister]

theorem depth_emitBody (f : FileModel) : (emitBody f).depth 0 = some 0 := by
  have hsplit : emitBody f = [Piece.lit "\n"] ++ f.services.flatMap emitService := rfl
  rw [hsplit, Text.depth_append, depth_unnamed.2.2.2.1, Option.bind_some]
  exact Text.depth_flatMap fun s _ => depth_emitService s

/-! ## The namespaces -/

theorem depth_openNamespace (part : Bytes) (n : Nat) : (openNamespace part).depth n = some (n + 1) := by
  have hsame : Text.SameBraces (openNamespace part) (openNamespace []) := .of_blank rfl
  have hopen : Text.depth 0 (openNamespace []) = some 1 := by decide +kernel
  have hadd := Text.depth_add hopen n
  rw [Nat.zero_add, Nat.add_comm 1 n] at hadd
  exact (hsame n).trans hadd

/-- The two loops over the package count the same. -/
theorem depth_openNamespaces_fold {package : Bytes} {n : Nat} {acc : Text × Bytes}
    (h : acc.1.depth 0 = some n) :
    (package.foldl openNamespacesStep acc).1.depth 0 = some (package.count 46 + n) := by
  induction package generalizing n acc with
  | nil => rw [List.foldl_nil, h, List.count_nil, Nat.zero_add]
  | cons c package ih =>
      rw [List.foldl_cons]
      by_cases hc : c = 46
      · have hstep : (openNamespacesStep acc c).1.depth 0 = some (n + 1) := by
          rw [openNamespacesStep, if_pos hc, Text.depth_append, h, Option.bind_some,
            depth_openNamespace]
        rw [ih hstep, hc, List.count_cons_self]
        congr 1
        omega
      · have hstep : (openNamespacesStep acc c).1.depth 0 = some n := by
          rw [openNamespacesStep, if_neg hc, h]
        rw [ih hstep, List.count_cons_of_ne hc]

/-- One namespace for each component of the package, and two around them. -/
theorem depth_openNamespaces (package : Bytes) :
    (openNamespaces package).depth 0 = some (package.count 46 + 3) := by
  have hstart : Text.depth 0 ["namespace urpc \x7b\nnamespace gen \x7b\n"] = some 2 := by
    decide +kernel
  rw [openNamespaces, Text.depth_append, depth_openNamespaces_fold hstart, Option.bind_some,
    depth_openNamespace]

/-- A text of braces that open, with names without braces, and the component that comes next. -/
structure Opening (acc : Text × Bytes) : Prop where
  closes : (render acc.1).count 125 = 0
  names : ∀ b ∈ acc.1.names, Plain b
  part : Plain acc.2

theorem Opening.openNamespace {acc : Text × Bytes} (h : Opening acc) :
    Opening (acc.1 ++ openNamespace acc.2, []) where
  closes := by
    have hlit : (utf8 "namespace ").count 125 = 0 ∧ (utf8 " \x7b\n").count 125 = 0 := by
      decide +kernel
    have hpart := List.count_eq_zero.mpr h.part.2
    rw [render_append, List.count_append, h.closes]
    simp [Generator.openNamespace, render, Piece.bytes, hlit, hpart]
  names := by
    intro b hb
    rw [Text.names_append] at hb
    rcases List.mem_append.mp hb with hb | hb
    · exact h.names b hb
    · rw [List.mem_singleton.mp hb]
      exact h.part
  part := ⟨List.not_mem_nil, List.not_mem_nil⟩

theorem Opening.step {acc : Text × Bytes} {c : UInt8} (h : Opening acc) (hopen : c ≠ 123)
    (hclose : c ≠ 125) : Opening (openNamespacesStep acc c) := by
  unfold openNamespacesStep
  split
  · exact h.openNamespace
  · refine { h with part := ⟨fun hmem => ?_, fun hmem => ?_⟩ }
    · rcases List.mem_append.mp hmem with hmem | hmem
      · exact h.part.1 hmem
      · exact hopen (List.mem_singleton.mp hmem).symm
    · rcases List.mem_append.mp hmem with hmem | hmem
      · exact h.part.2 hmem
      · exact hclose (List.mem_singleton.mp hmem).symm

theorem Opening.fold {package : Bytes} (hpackage : Plain package) {acc : Text × Bytes}
    (h : Opening acc) : Opening (package.foldl openNamespacesStep acc) := by
  induction package generalizing acc with
  | nil => exact h
  | cons c package ih =>
      have hopen : c ≠ 123 := fun heq => hpackage.1 (heq ▸ List.mem_cons_self)
      have hclose : c ≠ 125 := fun heq => hpackage.2 (heq ▸ List.mem_cons_self)
      exact ih ⟨fun hmem => hpackage.1 (List.mem_cons_of_mem _ hmem),
        fun hmem => hpackage.2 (List.mem_cons_of_mem _ hmem)⟩ (h.step hopen hclose)

theorem opening_openNamespaces {package : Bytes} (h : Plain package) :
    Opening (openNamespaces package, []) := by
  have hstart : Opening (["namespace urpc \x7b\nnamespace gen \x7b\n"], []) :=
    { closes := by decide +kernel
      names := nofun
      part := by decide }
  exact (hstart.fold h).openNamespace

/-- The counter of `CloseNamespaces`. -/
theorem closeDepth_eq (package : Bytes) : closeDepth package = package.count 46 + 3 := by
  unfold closeDepth
  generalize 3 = n
  induction package generalizing n with
  | nil => exact (Nat.zero_add n).symm
  | cons c package ih =>
      rw [List.foldl_cons, ih]
      split
      · next heq =>
          rw [heq, List.count_cons_self]
          omega
      · next hne => rw [List.count_cons_of_ne hne]

/-- A text that closes `n` namespaces and does nothing else. -/
structure Closing (n : Nat) (t : Text) : Prop where
  depth : t.depth n = some 0
  opens : (render t).count 123 = 0
  closes : (render t).count 125 = n
  names : t.names = []

theorem closing_closeNamespaces (package : Bytes) :
    Closing (package.count 46 + 3) (closeNamespaces package) := by
  have hlit : Piece.depth 1 (Piece.lit "\x7d  // namespace\n") = some 0 ∧
      (utf8 "\x7d  // namespace\n").count 123 = 0 ∧ (utf8 "\x7d  // namespace\n").count 125 = 1 := by
    decide +kernel
  rw [closeNamespaces, closeDepth_eq]
  generalize package.count 46 + 3 = n
  induction n with
  | zero => exact ⟨rfl, rfl, rfl, rfl⟩
  | succ n ih =>
      obtain ⟨hdepth, hopens, hcloses, hnames⟩ := ih
      rw [List.replicate_succ]
      refine ⟨?_, ?_, ?_, hnames⟩
      · have hone : Piece.depth (n + 1) (Piece.lit "\x7d  // namespace\n") = some n := by
          have hadd := depth_add hlit.1 n
          rwa [Nat.add_comm 1 n, Nat.zero_add] at hadd
        rw [Text.depth, hone]
        exact hdepth
      · rw [render, List.flatMap_cons, List.count_append]
        exact (congrArg₂ (· + ·) hlit.2.1 hopens).trans rfl
      · rw [render, List.flatMap_cons, List.count_append]
        exact (congrArg₂ (· + ·) hlit.2.2 hcloses).trans (Nat.add_comm 1 n)

/-! ## The header -/

theorem ServiceModel.mem_names {s : ServiceModel} {m : MethodModel} (hm : m ∈ s.methods) :
    m.names ⊆ s.names := fun _ hb =>
  List.mem_cons_of_mem _ (List.mem_cons_of_mem _ (List.mem_flatMap.mpr ⟨m, hm, hb⟩))

theorem names_interfaceMembers (s : ServiceModel) : (interfaceMembers s).names ⊆ s.names := by
  intro b hb
  obtain ⟨t, ht, hb⟩ := Text.mem_names_flatten.mp hb
  simp only [List.mem_cons, List.not_mem_nil, or_false] at ht
  rcases ht with rfl | rfl | rfl | rfl | rfl
  · simp only [Text.names, List.mem_cons, List.not_mem_nil, or_false, or_self] at hb
    rw [hb]
    exact List.mem_cons_self
  · obtain ⟨m, hm, hb⟩ := mem_names_separated hb
    exact s.mem_names hm (names_emitInterfaceMethod m hb)
  · cases hb
  · obtain ⟨m, hm, hb⟩ := Text.mem_names_flatMap.mp hb
    refine s.mem_names hm ?_
    simp only [emitTableEntry, Text.names, List.mem_cons, List.not_mem_nil, or_false] at hb
    simp only [MethodModel.names, List.mem_cons]
    tauto
  · cases hb

theorem names_proxyMembers (s : ServiceModel) : (proxyMembers s).names ⊆ s.names := by
  intro b hb
  obtain ⟨t, ht, hb⟩ := Text.mem_names_flatten.mp hb
  simp only [List.mem_cons, List.not_mem_nil, or_false] at ht
  rcases ht with rfl | rfl | rfl
  · simp only [Text.names, List.mem_cons, List.not_mem_nil, or_false, or_self] at hb
    rw [hb]
    exact List.mem_cons_self
  · obtain ⟨m, hm, hb⟩ := mem_names_separated hb
    exact s.mem_names hm (names_emitProxyMethod m hb)
  · cases hb

theorem names_registerBody (s : ServiceModel) : (registerBody s).names ⊆ s.names := by
  intro b hb
  obtain ⟨t, ht, hb⟩ := Text.mem_names_flatten.mp hb
  simp only [List.mem_cons, List.not_mem_nil, or_false] at ht
  rcases ht with rfl | rfl | rfl
  · cases hb
  · obtain ⟨m, hm, hb⟩ := Text.mem_names_flatMap.mp hb
    refine s.mem_names hm (names_emitRegisterCall m ?_)
    change b ∈ Text.names (emitRegisterCall m ++ _) at hb
    rw [Text.names_append] at hb
    rcases List.mem_append.mp hb with hb | hb
    · exact hb
    · cases hb
  · cases hb

/-- A comment, a first line, the members and the end: the names of a service, and those of the
    members. -/
theorem names_definition {s : ServiceModel} {comment head members : Text} {last : String}
    (hcomment : ∀ b ∈ comment.names, b = s.name ∨ b = s.fullName)
    (hhead : ∀ b ∈ head.names, b = s.name ∨ b = s.fullName) (hmembers : members.names ⊆ s.names) :
    (Text.names (List.flatten [comment, head, members, [last]])) ⊆ s.names := by
  have hown : ∀ b, b = s.name ∨ b = s.fullName → b ∈ s.names := by
    rintro b (rfl | rfl)
    · exact List.mem_cons_self
    · exact List.mem_cons_of_mem _ List.mem_cons_self
  intro b hmem
  obtain ⟨t, ht, hb⟩ := Text.mem_names_flatten.mp hmem
  simp only [List.mem_cons, List.not_mem_nil, or_false] at ht
  rcases ht with heq | heq | heq | heq
  · exact hown b (hcomment b (heq ▸ hb))
  · exact hown b (hhead b (heq ▸ hb))
  · exact hmembers (heq ▸ hb)
  · rw [heq] at hb
    cases hb

theorem names_emitInterface (s : ServiceModel) : (emitInterface s).names ⊆ s.names :=
  names_definition (by simp [interfaceComment, Text.names]) (by simp [interfaceHead, Text.names])
    (names_interfaceMembers s)

theorem names_emitProxy (s : ServiceModel) : (emitProxy s).names ⊆ s.names :=
  names_definition (by simp [proxyComment, Text.names]) (by simp [proxyHead, Text.names])
    (names_proxyMembers s)

theorem names_emitRegister (s : ServiceModel) : (emitRegister s).names ⊆ s.names :=
  names_definition (by simp [registerComment, Text.names]) (by simp [registerHead, Text.names])
    (names_registerBody s)

theorem names_emitBody (f : FileModel) {b : Bytes} (hb : b ∈ (emitBody f).names) : b ∈ f.names := by
  obtain ⟨s, hs, hb⟩ := Text.mem_names_flatMap.mp (show b ∈ Text.names (f.services.flatMap _) from hb)
  refine List.mem_cons_of_mem _ (List.mem_cons_of_mem _ (List.mem_flatMap.mpr ⟨s, hs, ?_⟩))
  rw [emitService, Text.names_append, Text.names_append, Text.names_append] at hb
  simp only [List.mem_append] at hb
  rcases hb with ((hb | hb) | hb) | hb
  · obtain ⟨m, hm, hb⟩ := Text.mem_names_flatMap.mp hb
    exact s.mem_names hm (names_emitTraits m hb)
  · exact names_emitInterface s hb
  · exact names_emitProxy s hb
  · exact names_emitRegister s hb

theorem plain_baseOf {sourceFile : Bytes} (h : Plain sourceFile) : Plain (baseOf sourceFile) := by
  unfold baseOf
  split
  · exact h
  · exact ⟨fun hmem => h.1 (List.mem_of_mem_take hmem), fun hmem => h.2 (List.mem_of_mem_take hmem)⟩

theorem names_emitPreamble {f : FileModel} (h : Plain f.sourceFile) :
    ∀ b ∈ (emitPreamble f).names, Plain b := by
  intro b hb
  simp only [emitPreamble, Text.names, List.mem_cons, List.not_mem_nil, or_false] at hb
  rcases hb with rfl | rfl
  · exact h
  · exact plain_baseOf h

/-- The generated header, for names without braces: from left to right no brace is closed that is
    not open, and at the end all are closed. The namespaces opened are those closed at the end, as
    many as the package has components and two more, and what stands before and between them closes
    what it opens. -/
theorem header_balanced (f : FileModel) (h : ∀ b ∈ f.names, Plain b) :
    Balanced (render (emitHeader f)) ∧
    ∃ before body, render (emitHeader f) =
        before ++ render (openNamespaces f.package) ++ body ++
          render (closeNamespaces f.package) ∧
      Balanced before ∧ Balanced body ∧
      (render (openNamespaces f.package)).count 123 = f.package.count 46 + 3 ∧
      (render (openNamespaces f.package)).count 125 = 0 ∧
      (render (closeNamespaces f.package)).count 125 = f.package.count 46 + 3 ∧
      (render (closeNamespaces f.package)).count 123 = 0 := by
  have hpackage : Plain f.package := h _ List.mem_cons_self
  have hsource : Plain f.sourceFile := h _ (List.mem_cons_of_mem _ List.mem_cons_self)
  have hopen := opening_openNamespaces hpackage
  have hclose := closing_closeNamespaces f.package
  have hpre : depth 0 (render (emitPreamble f)) = some 0 := by
    rw [depth_render (names_emitPreamble hsource), depth_emitPreamble]
  have hbody : depth 0 (render (emitBody f)) = some 0 := by
    rw [depth_render fun b hb => h b (names_emitBody f hb), depth_emitBody]
  have hopened : depth 0 (render (openNamespaces f.package)) = some (f.package.count 46 + 3) := by
    rw [depth_render hopen.names, depth_openNamespaces]
  have hclosed : depth (f.package.count 46 + 3) (render (closeNamespaces f.package)) = some 0 := by
    rw [depth_render (by simp [hclose.names])]
    exact hclose.depth
  have hsplit : render (emitHeader f) = render (emitPreamble f) ++
      render (openNamespaces f.package) ++ render (emitBody f) ++
      render (closeNamespaces f.package) := by
    rw [emitHeader, render_append, render_append, render_append]
  have hopens := depth_count hopened
  rw [hopen.closes, Nat.zero_add, Nat.add_zero] at hopens
  refine ⟨balanced_of_depth ?_, _, _, hsplit, balanced_of_depth hpre, balanced_of_depth hbody,
    hopens, hopen.closes, hclose.closes, hclose.opens⟩
  -- the body is balanced at depth 0, so also inside the namespaces
  have hinside := depth_add hbody (f.package.count 46 + 3)
  rw [Nat.zero_add] at hinside
  rw [hsplit, depth_append, depth_append, depth_append, hpre]
  simp only [Option.bind_some, hopened, hinside, hclosed]

/-- A file with a dotted package and a method of each kind of emitter. -/
theorem header_balanced_echo :
    Balanced (render (emitHeader ⟨str "a.b", str "echo.proto",
      [⟨str "Echo", str "a.b.Echo", [⟨str "Say", str "a.b.Echo", str "Q", str "R", str "q", str "r",
        str "/a.b.Echo/Say", .unary⟩, ⟨str "Chat", str "a.b.Echo", str "Q", str "R", str "q", str "r",
        str "/a.b.Echo/Chat", .bidi⟩]⟩]⟩)) :=
  (header_balanced _ (by decide +kernel)).1

end Urpc.Generator

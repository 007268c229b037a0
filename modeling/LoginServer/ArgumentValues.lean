import LoginServer.Explode

/-! # The values of the options

An option is read by its pieces. One that stands without an equals sign has no second piece, and
of a value with another equals sign the second piece is only a part. -/
namespace LoginServer.Configuration

open Bytes Worlds Search

/-- The options that take a value. -/
def valueNames : List (List UInt8) := ascii "--path" :: runfileNames ++ logNames

/-- The arguments that end the handler. -/
def EndsHandler (arg : List UInt8) : Prop :=
  arg = ascii "--help" ∨ arg = ascii "--version" ∨ arg = ascii "-v"

instance (arg : List UInt8) : Decidable (EndsHandler arg) :=
  inferInstanceAs (Decidable (_ ∨ _))

def optionArgs (args : List (List UInt8)) : List (List UInt8) :=
  args.takeWhile fun arg => ¬ EndsHandler arg

def setting (name : List UInt8) (s : Startup) : List UInt8 :=
  if name = ascii "--path" then s.g_configDir
  else if runfileNames.contains name then s.g_config.m_confString .RUNFILE
  else s.g_config.m_confString .OUTPUT_LOG

def assign (name : List UInt8) (s : Startup) (value : List UInt8) : Startup :=
  if name = ascii "--path" then { s with g_configDir := value }
  else if runfileNames.contains name then
    { s with g_config := s.g_config.setString .RUNFILE value }
  else { s with g_config := s.g_config.setString .OUTPUT_LOG value }

/-- No piece is read that is not there, and a name with a value sets its setting to the value. -/
structure KeepsValues (s : Startup) (args : List (List UInt8)) : Prop where
  inPieces : argumentsHandler s args ≠ none
  whole : ∀ pre name value post, name ∈ valueNames →
    args = pre ++ (name ++ 0x3D :: value) :: post → ∀ t,
    argumentsHandler s (pre ++ [name ++ 0x3D :: value]) = some (true, t) → setting name t = value

/-- The argument is not an option without its value, and the value is free of equals signs. -/
def PlainValue (arg : List UInt8) : Prop :=
  arg ∉ valueNames ∧
    ∀ name ∈ valueNames, ∀ value, arg = name ++ 0x3D :: value → 0x3D ∉ value

def handleArg (s : Startup) (arg : List UInt8) : Option Startup :=
  (explodeString arg (ascii "=") true 0).bind (handleOption s)

variable {s t : Startup} {arg name value front back : List UInt8}
  {args pre post : List (List UInt8)}

theorem argumentsHandler_of_ends (h : EndsHandler arg) (s : Startup)
    (args : List (List UInt8)) : argumentsHandler s (arg :: args) = some (false, s) := by
  rw [argumentsHandler]
  rcases h with rfl | h
  · rw [if_pos rfl]
  · by_cases hhelp : arg = ascii "--help"
    · rw [if_pos hhelp]
    · rw [if_neg hhelp, if_pos h]

theorem argumentsHandler_of_option (h : ¬ EndsHandler arg) (s : Startup)
    (args : List (List UInt8)) :
    argumentsHandler s (arg :: args) =
      (handleArg s arg).bind fun t => argumentsHandler t args := by
  obtain ⟨hhelp, hversion⟩ := not_or.mp h
  rw [argumentsHandler, if_neg hhelp, if_neg hversion, handleArg, Option.bind_assoc]
  rfl

theorem equals_ne_nil : ascii "=" ≠ [] := by decide

theorem explode_word (h : 0x3D ∉ arg) : explodeString arg (ascii "=") true 0 = some [arg] := by
  have hnone : split (ascii "=") arg = none := split_eq_none h
  rw [explodeString_eq equals_ne_nil, cuts_of_none hnone]
  rfl

theorem explode_pair (h : 0x3D ∉ front) :
    explodeString (front ++ 0x3D :: back) (ascii "=") true 0 =
      (explodeString back (ascii "=") true 0).map (trimString front :: ·) := by
  have hsplit : split (ascii "=") (front ++ 0x3D :: back) = some (front, back) := split_append h
  have hlt := length_back_lt equals_ne_nil hsplit
  have hsame : cuts (ascii "=") (front ++ 0x3D :: back).length back =
      cuts (ascii "=") (back.length + 1) back :=
    cuts_eq_of_not_infix (not_infix_behind_of_length_le equals_ne_nil (Nat.le_succ _))
      (not_infix_behind_of_length_le equals_ne_nil (Nat.le_of_lt hlt))
  rw [explodeString_eq equals_ne_nil, explodeString_eq equals_ne_nil, cutsMade, cutsMade,
    if_pos (Or.inl rfl), if_pos (Or.inl rfl), cuts_of_some hsplit,
    mapInit_cons _ _ (cuts_ne_nil _ _ _), hsame]
  rfl

theorem exists_explode (arg : List UInt8) :
    ∃ piece rest, explodeString arg (ascii "=") true 0 = some (piece :: rest) := by
  by_cases h : 0x3D ∈ arg
  · obtain ⟨front, back, rfl, hfront⟩ := List.eq_append_cons_of_mem h
    rw [explode_pair hfront, explodeString_eq equals_ne_nil, Option.map_some]
    exact ⟨_, _, rfl⟩
  · exact ⟨arg, [], explode_word h⟩

theorem second_piece (value : List UInt8) :
    ∃ piece rest, explodeString value (ascii "=") true 0 = some (piece :: rest) ∧
      (piece = value ↔ 0x3D ∉ value) := by
  by_cases h : 0x3D ∈ value
  · obtain ⟨front, back, hvalue, hfront⟩ := List.eq_append_cons_of_mem h
    obtain ⟨piece, rest, hback⟩ := exists_explode back
    refine ⟨trimString front, piece :: rest, ?_, iff_of_false ?_ (not_not.mpr h)⟩
    · rw [hvalue, explode_pair hfront, hback, Option.map_some]
    · intro hpiece
      have hmem : 0x3D ∈ trimString front := hpiece ▸ h
      exact hfront ((List.rdropWhile_prefix _ _).mem ((List.dropWhile_suffix _).mem hmem))
  · exact ⟨value, [], explode_word h, iff_of_true rfl h⟩

theorem valueNames_plain : ∀ name ∈ valueNames,
    0x3D ∉ name ∧ trimString name = name ∧ name ∉ daemonNames := by
  decide

theorem not_endsHandler_pair (name value : List UInt8) :
    ¬ EndsHandler (name ++ 0x3D :: value) := by
  have hmem : 0x3D ∈ name ++ 0x3D :: value :=
    List.mem_append_right _ (List.mem_cons_self ..)
  rintro (h | h | h)
  all_goals
    rw [h] at hmem
    exact absurd hmem (by decide)

theorem setting_assign (name : List UInt8) (s : Startup) (value : List UInt8) :
    setting name (assign name s value) = value := by
  unfold setting assign
  by_cases hpath : name = ascii "--path"
  · rw [if_pos hpath, if_pos hpath]
  · rw [if_neg hpath, if_neg hpath]
    by_cases hrun : runfileNames.contains name = true
    · rw [if_pos hrun, if_pos hrun]
      simp [ConfigManager.setString]
    · rw [if_neg hrun, if_neg hrun]
      simp [ConfigManager.setString]

theorem handleOption_value (hname : name ∈ valueNames) (s : Startup)
    (rest : List (List UInt8)) :
    handleOption s (name :: rest) = rest[0]?.map (assign name s) := by
  rw [handleOption, List.getElem?_cons_zero, Option.bind_eq_bind, Option.bind_some,
    List.getElem?_cons_succ]
  unfold assign
  by_cases hpath : name = ascii "--path"
  · simp only [if_pos hpath]
    cases rest[0]? <;> rfl
  · simp only [if_neg hpath]
    by_cases hrun : name ∈ runfileNames
    · have hcontains : runfileNames.contains name = true := List.contains_iff_mem.mpr hrun
      simp only [if_pos hrun, if_pos hcontains]
      cases rest[0]? <;> rfl
    · have hlog : name ∈ logNames := by
        rcases List.mem_cons.mp hname with h | h
        · exact absurd h hpath
        · exact (List.mem_append.mp h).resolve_left hrun
      have hcontains : ¬ runfileNames.contains name = true :=
        fun h => hrun (List.contains_iff_mem.mp h)
      simp only [if_neg hrun, if_neg hcontains, if_pos hlog]
      cases rest[0]? <;> rfl

theorem handleOption_other (hname : name ∉ valueNames) (s : Startup)
    (rest : List (List UInt8)) : handleOption s (name :: rest) ≠ none := by
  have hpath : name ≠ ascii "--path" := fun h => hname (h ▸ List.mem_cons_self ..)
  have hrun : name ∉ runfileNames := fun h =>
    hname (List.mem_cons_of_mem _ (List.mem_append_left _ h))
  have hlog : name ∉ logNames := fun h =>
    hname (List.mem_cons_of_mem _ (List.mem_append_right _ h))
  rw [handleOption, List.getElem?_cons_zero, Option.bind_eq_bind, Option.bind_some, if_neg hpath,
    if_neg hrun, if_neg hlog]
  split <;> exact Option.some_ne_none _

/-- A piece is missing just behind an option that stands alone. -/
theorem handleArg_eq_none_iff (s : Startup) (arg : List UInt8) :
    handleArg s arg = none ↔ arg ∈ valueNames := by
  by_cases h : 0x3D ∈ arg
  · obtain ⟨front, back, rfl, hfront⟩ := List.eq_append_cons_of_mem h
    obtain ⟨piece, rest, hback⟩ := exists_explode back
    rw [handleArg, explode_pair hfront, hback, Option.map_some, Option.bind_some]
    refine iff_of_false ?_ fun hname => (valueNames_plain _ hname).1 h
    by_cases hname : trimString front ∈ valueNames
    · rw [handleOption_value hname, List.getElem?_cons_zero]
      exact Option.some_ne_none _
    · exact handleOption_other hname s _
  · rw [handleArg, explode_word h, Option.bind_some]
    by_cases hname : arg ∈ valueNames
    · rw [handleOption_value hname]
      exact iff_of_true rfl hname
    · exact iff_of_false (handleOption_other hname s []) hname

theorem handleArg_pair (hname : name ∈ valueNames) (value : List UInt8) (s : Startup) :
    ∃ t, handleArg s (name ++ 0x3D :: value) = some t ∧ (setting name t = value ↔ 0x3D ∉ value) := by
  obtain ⟨hequals, htrim, -⟩ := valueNames_plain name hname
  obtain ⟨piece, rest, hpieces, hpiece⟩ := second_piece value
  refine ⟨assign name s piece, ?_, by rw [setting_assign, hpiece]⟩
  rw [handleArg, explode_pair hequals, hpieces, Option.map_some, Option.bind_some, htrim,
    handleOption_value hname, List.getElem?_cons_zero, Option.map_some]

theorem optionArgs_cons_of_not (h : ¬ EndsHandler arg) (args : List (List UInt8)) :
    optionArgs (arg :: args) = arg :: optionArgs args :=
  List.takeWhile_cons_of_pos (decide_eq_true h)

theorem optionArgs_cons_of_ends (h : EndsHandler arg) (args : List (List UInt8)) :
    optionArgs (arg :: args) = [] :=
  List.takeWhile_cons_of_neg (by simpa using h)

theorem optionArgs_append (h : ∀ a ∈ pre, ¬ EndsHandler a) (post : List (List UInt8)) :
    optionArgs (pre ++ post) = pre ++ optionArgs post :=
  List.takeWhile_append_of_pos fun a ha => decide_eq_true (h a ha)

/-- The handler reads a missing piece just when an option stands alone before it ends. -/
theorem argumentsHandler_eq_none_iff (s : Startup) (args : List (List UInt8)) :
    argumentsHandler s args = none ↔ ∃ arg ∈ optionArgs args, arg ∈ valueNames := by
  induction args generalizing s with
  | nil => simp [argumentsHandler, optionArgs]
  | cons arg args ih =>
    by_cases hends : EndsHandler arg
    · rw [argumentsHandler_of_ends hends, optionArgs_cons_of_ends hends]
      simp
    · rw [argumentsHandler_of_option hends, optionArgs_cons_of_not hends, List.exists_mem_cons_iff]
      cases harg : handleArg s arg with
      | none => simp [(handleArg_eq_none_iff s arg).mp harg]
      | some t =>
        have hname : arg ∉ valueNames := by
          rw [← handleArg_eq_none_iff s, harg]
          exact Option.some_ne_none t
        rw [Option.bind_some, ih]
        simp [hname]

theorem argumentsHandler_concat (s : Startup) (pre : List (List UInt8)) {arg : List UInt8}
    (harg : ¬ EndsHandler arg) (t : Startup) :
    argumentsHandler s (pre ++ [arg]) = some (true, t) ↔
      (∀ a ∈ pre, ¬ EndsHandler a) ∧
        ∃ u, argumentsHandler s pre = some (true, u) ∧ handleArg u arg = some t := by
  induction pre generalizing s with
  | nil =>
    rw [List.nil_append, argumentsHandler_of_option harg]
    cases hdone : handleArg s arg <;> simp [argumentsHandler, hdone]
  | cons a pre ih =>
    by_cases hends : EndsHandler a
    · rw [List.cons_append, argumentsHandler_of_ends hends]
      simp [hends]
    · rw [List.cons_append, argumentsHandler_of_option hends, argumentsHandler_of_option hends]
      cases handleArg s a with
      | none => simp
      | some v =>
        simp only [Option.bind_some, ih v, List.forall_mem_cons, hends, not_false_eq_true,
          true_and]

theorem exists_handled (s : Startup) (hends : ∀ a ∈ pre, ¬ EndsHandler a)
    (hnames : ∀ a ∈ pre, a ∉ valueNames) : ∃ u, argumentsHandler s pre = some (true, u) := by
  induction pre generalizing s with
  | nil => exact ⟨s, rfl⟩
  | cons a pre ih =>
    obtain ⟨hend, hends⟩ := List.forall_mem_cons.mp hends
    obtain ⟨hname, hnames⟩ := List.forall_mem_cons.mp hnames
    obtain ⟨v, hv⟩ := Option.ne_none_iff_exists'.mp (mt (handleArg_eq_none_iff s a).mp hname)
    rw [argumentsHandler_of_option hend, hv, Option.bind_some]
    exact ih v hends hnames

theorem mem_optionArgs_iff : arg ∈ optionArgs args ↔
    ¬ EndsHandler arg ∧
      ∃ pre post, args = pre ++ arg :: post ∧ ∀ a ∈ pre, ¬ EndsHandler a := by
  constructor
  · intro h
    have hends : ∀ a ∈ optionArgs args, ¬ EndsHandler a := by
      intro a ha
      have htest := List.mem_takeWhile_imp (p := fun a => decide (¬ EndsHandler a)) ha
      exact of_decide_eq_true htest
    obtain ⟨pre, rest, hsplit⟩ := List.append_of_mem h
    refine ⟨hends arg h, pre, rest ++ args.dropWhile (fun a => ¬ EndsHandler a), ?_, ?_⟩
    · rw [← List.cons_append, ← List.append_assoc, ← hsplit, optionArgs,
        List.takeWhile_append_dropWhile]
    · intro a ha
      exact hends a (hsplit ▸ List.mem_append_left _ ha)
  · rintro ⟨hend, pre, post, rfl, hends⟩
    rw [optionArgs_append hends, optionArgs_cons_of_not hend]
    exact List.mem_append_right _ (List.mem_cons_self ..)

/-- The command line is read safely and its values are kept just when every option before the end
has its value, with no equals sign in it. -/
theorem keepsValues_iff (s : Startup) (args : List (List UInt8)) :
    KeepsValues s args ↔ ∀ arg ∈ optionArgs args, PlainValue arg := by
  constructor
  · rintro ⟨hin, hwhole⟩ arg harg
    have hnames : ∀ a ∈ optionArgs args, a ∉ valueNames := by
      intro a ha hname
      exact hin ((argumentsHandler_eq_none_iff s args).mpr ⟨a, ha, hname⟩)
    refine ⟨hnames arg harg, ?_⟩
    rintro name hname value rfl
    obtain ⟨hend, pre, post, hargs, hends⟩ := mem_optionArgs_iff.mp harg
    have hpre : ∀ a ∈ pre, a ∉ valueNames := by
      intro a ha
      obtain ⟨front, back, rfl⟩ := List.append_of_mem ha
      refine hnames a (mem_optionArgs_iff.mpr ⟨hends a ha, front,
        back ++ (name ++ 0x3D :: value) :: post, ?_, ?_⟩)
      · rw [hargs, List.append_assoc, List.cons_append]
      · intro b hb
        exact hends b (List.mem_append_left _ hb)
    obtain ⟨u, hu⟩ := exists_handled s hends hpre
    obtain ⟨t, ht, hset⟩ := handleArg_pair hname value u
    exact hset.mp (hwhole pre name value post hname hargs t
      ((argumentsHandler_concat s pre hend t).mpr ⟨hends, u, hu, ht⟩))
  · intro hplain
    constructor
    · intro hnone
      obtain ⟨arg, harg, hname⟩ := (argumentsHandler_eq_none_iff s args).mp hnone
      exact (hplain arg harg).1 hname
    · intro pre name value post hname hargs t ht
      have hend := not_endsHandler_pair name value
      obtain ⟨hends, u, -, hu⟩ := (argumentsHandler_concat s pre hend t).mp ht
      have harg := mem_optionArgs_iff.mpr ⟨hend, pre, post, hargs, hends⟩
      obtain ⟨v, hv, hset⟩ := handleArg_pair hname value u
      cases hv.symm.trans hu
      exact hset.mpr ((hplain _ harg).2 name hname value rfl)

/-- A value with an equals sign keeps only what stands before it. -/
theorem value_cut :
    ¬ ∀ (s : Startup) (args : List (List UInt8)), KeepsValues s args := by
  intro hall
  have hset := (hall freshStartup [ascii "--log=a=b"]).whole [] (ascii "--log") (ascii "a=b") []
    (by decide) rfl ⟨freshConfig.setString .OUTPUT_LOG (ascii "a"), ascii "."⟩ rfl
  exact absurd hset (by decide)

end LoginServer.Configuration

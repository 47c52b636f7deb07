import ApiPages.CommandLine.Arguments

/-!
# The directory that arguments ask for

However arguments are combined, a directory for the pages that they ask for has a name.
-/
namespace ApiPages.Invocation

/-- No directory without a name is asked for. -/
def NamesOutput (invocation : Invocation) : Prop := invocation.output ≠ some []

variable {invocation changed : Invocation} {opened : Option Switch}

/-- A reader that leaves no option open has the invocation of its last step. -/
theorem eq_ok_of_map_closed {result : Except Refusal Invocation}
    (read : result.map (·, (none : Option Switch)) = .ok (changed, opened)) :
    result = .ok changed := by
  cases result with
  | error refusal => cases read
  | ok own =>
    obtain ⟨rfl, -⟩ := Prod.mk.inj (Except.ok.inj read)
    rfl

/-- Setting the value of an option asks for no directory without a name. -/
theorem NamesOutput.setValue (names : invocation.NamesOutput) {switch : Switch} {value : Text}
    (set : invocation.setValue switch value = .ok changed) : changed.NamesOutput := by
  cases switch with
  | output =>
    rw [Invocation.setValue] at set
    split at set
    · cases set
    · rename_i free
      have named : value ≠ [] := by
        rintro rfl
        simp at free
      obtain rfl := Except.ok.inj set
      exact fun nameless => named (Option.some.inj nameless)
  | preamble | newline =>
    rw [Invocation.setValue] at set
    split at set
    · cases set
    · obtain rfl := Except.ok.inj set
      exact names
  | index | verbose | help => cases set

/-- Setting a flag asks for no directory at all. -/
theorem NamesOutput.setFlag (names : invocation.NamesOutput) {switch : Switch}
    (set : invocation.setFlag switch = .ok changed) : changed.NamesOutput := by
  cases switch with
  | index =>
    rw [Invocation.setFlag] at set
    split at set
    · cases set
    · obtain rfl := Except.ok.inj set
      exact names
  | verbose =>
    obtain rfl := Except.ok.inj set
    exact names
  | output | preamble | newline | help => cases set

/-- Short options ask for no directory without a name. -/
theorem NamesOutput.readLetters (names : invocation.NamesOutput) {letters : Text}
    (read : invocation.readLetters letters = .ok (changed, opened)) : changed.NamesOutput := by
  induction letters generalizing invocation with
  | nil =>
    obtain ⟨rfl, -⟩ := Prod.mk.inj (Except.ok.inj read)
    exact names
  | cons letter rest ih =>
    rw [Invocation.readLetters] at read
    split at read
    · cases read
    · rename_i switch known
      split at read
      · split at read
        · obtain ⟨rfl, -⟩ := Prod.mk.inj (Except.ok.inj read)
          exact names
        · exact names.setValue (eq_ok_of_map_closed read)
      · cases set : invocation.setFlag switch with
        | error refusal => simp [set, Except.bind] at read
        | ok next =>
          rw [set] at read
          exact ih (names.setFlag set) read

/-- A long option asks for no directory without a name. -/
theorem NamesOutput.readLong (names : invocation.NamesOutput) {text : Text}
    (read : invocation.readLong text = .ok (changed, opened)) : changed.NamesOutput := by
  rw [Invocation.readLong] at read
  split at read
  split at read
  · cases read
  · exact names.setValue (eq_ok_of_map_closed read)
  · split at read
    · obtain ⟨rfl, -⟩ := Prod.mk.inj (Except.ok.inj read)
      exact names
    · exact names.setFlag (eq_ok_of_map_closed read)

/-- An option of either kind asks for no directory without a name. -/
theorem NamesOutput.readOption (names : invocation.NamesOutput) {argument : Text}
    (read : invocation.readOption argument = .ok (changed, opened)) : changed.NamesOutput := by
  rw [Invocation.readOption.eq_def] at read
  split at read
  · exact names.readLong read
  · exact names.readLetters read
  · cases read

/-- Inputs ask for no directory of pages. -/
theorem NamesOutput.addInputs (names : invocation.NamesOutput) (inputs : List Text) :
    (inputs.foldl addInput invocation).NamesOutput := by
  induction inputs generalizing invocation with
  | nil => exact names
  | cons input rest ih =>
    have added : (invocation.addInput input).NamesOutput := names
    exact ih added

/-- Arguments ask for no directory without a name. -/
theorem NamesOutput.readFrom (names : invocation.NamesOutput) {arguments : List Text}
    (read : invocation.readFrom opened arguments = .ok changed) : changed.NamesOutput := by
  fun_induction Invocation.readFrom invocation opened arguments with
  | case1 invocation =>
    obtain rfl := Except.ok.inj read
    exact names
  | case2 | case3 | case6 | case8 => cases read
  | case4 invocation opened rest closed looks =>
    obtain rfl := Except.ok.inj read
    exact names.addInputs rest
  | case5 invocation opened argument rest looks closed other next following option ih =>
    exact ih (names.readOption option) read
  | case7 invocation argument rest looks switch next set ih =>
    exact ih (names.setValue set) read
  | case9 invocation argument rest looks ih =>
    have added : (invocation.addInput argument).NamesOutput := names
    exact ih added read

/-- Arguments that can be read ask for no directory without a name. -/
theorem output_ne_nil {arguments : List Text} (accepted : read arguments = .ok invocation) :
    invocation.output ≠ some [] := by
  have initial : ({} : Invocation).NamesOutput := nofun
  exact initial.readFrom accepted

end ApiPages.Invocation

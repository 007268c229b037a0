import LoginServer.Motd

/-! # The text and the number of the message of the day

A client shows the message anew when its number has changed, so a reload is to count exactly when
it changes the text. -/
namespace LoginServer.Configuration

open Bytes Worlds Runs Machine

def reloads : Machine ConfigManager Answer where
  start _ := True
  step c answer := some (reloadMotd c answer)

structure MovesTogether (c : ConfigManager) (answer : Answer) : Prop where
  text : (reloadMotd c answer).m_confString .MOTD_TEXT ≠ []
  kept : (∀ content ∈ obtained c answer, content = []) → c.m_confString .MOTD_TEXT ≠ [] →
    (reloadMotd c answer).m_confString .MOTD_TEXT = c.m_confString .MOTD_TEXT ∧
      (reloadMotd c answer).m_confNumber .MOTD_ID = c.m_confNumber .MOTD_ID
  counted : (reloadMotd c answer).m_confNumber .MOTD_ID = c.m_confNumber .MOTD_ID + 1 ↔
    (reloadMotd c answer).m_confString .MOTD_TEXT ≠ c.m_confString .MOTD_TEXT

/-- There is a text from the start, and every reload moves it and its number together. -/
def KeptTogether (c : ConfigManager) (answers : List Answer) : Prop :=
  c.m_confString .MOTD_TEXT ≠ [] ∧ reloads.AllSteps MovesTogether c answers

variable {c : ConfigManager}

theorem reloadMotd_kept (htext : c.m_confString .MOTD_TEXT ≠ []) {answer : Answer}
    (h : ∀ content ∈ obtained c answer, content = []) : reloadMotd c answer = c := by
  cases hobtained : obtained c answer with
  | none => rw [reloadMotd_of_none hobtained, keepMotd, if_neg htext]
  | some content => rw [reloadMotd_of_some hobtained, h content hobtained, installMotd_nil]

theorem reloadMotd_installed {answer : Answer} {content : List UInt8}
    (h : obtained c answer = some content) (hcontent : content ≠ []) :
    (reloadMotd c answer).m_confString .MOTD_TEXT = content ∧
      (reloadMotd c answer).m_confNumber .MOTD_ID = c.m_confNumber .MOTD_ID + 1 := by
  rw [reloadMotd_of_some h]
  exact installMotd_of_ne hcontent

theorem obtained_cases (c : ConfigManager) (answer : Answer) :
    (∀ content ∈ obtained c answer, content = []) ∨
      ∃ content, obtained c answer = some content ∧ content ≠ [] := by
  cases obtained c answer with
  | none => exact Or.inl fun _ h => nomatch h
  | some content =>
    by_cases hcontent : content = []
    · refine Or.inl ?_
      rintro _ ⟨⟩
      exact hcontent
    · exact Or.inr ⟨content, rfl, hcontent⟩

theorem reloadMotd_text_ne_nil (htext : c.m_confString .MOTD_TEXT ≠ []) (answer : Answer) :
    (reloadMotd c answer).m_confString .MOTD_TEXT ≠ [] := by
  rcases obtained_cases c answer with hnone | ⟨content, hobtained, hcontent⟩
  · rw [reloadMotd_kept htext hnone]
    exact htext
  · rw [(reloadMotd_installed hobtained hcontent).1]
    exact hcontent

/-- With a text there, a reload does what is asked of it unless the channel still says the same. -/
theorem movesTogether_iff (htext : c.m_confString .MOTD_TEXT ≠ []) (answer : Answer) :
    MovesTogether c answer ↔ obtained c answer ≠ some (c.m_confString .MOTD_TEXT) := by
  constructor
  · intro h hobtained
    obtain ⟨hsame, hcounted⟩ := reloadMotd_installed hobtained htext
    exact h.counted.mp hcounted hsame
  · intro hne
    refine ⟨reloadMotd_text_ne_nil htext answer, fun hnone _ => ?_, ?_⟩
    · rw [reloadMotd_kept htext hnone]
      exact ⟨rfl, rfl⟩
    · rcases obtained_cases c answer with hnone | ⟨content, hobtained, hcontent⟩
      · rw [reloadMotd_kept htext hnone]
        exact iff_of_false (by omega) fun h => h rfl
      · obtain ⟨hinstalled, hcounted⟩ := reloadMotd_installed hobtained hcontent
        rw [hinstalled]
        exact iff_of_true hcounted fun h => hne (hobtained.trans (congrArg some h))

theorem load_text_ne_nil_iff (c : ConfigManager) (configDir : List UInt8) (root : Members)
    (answer : Answer) :
    (load c configDir (some (.object root)) answer).2.m_confString .MOTD_TEXT ≠ [] ↔
      obtained (loadSettings configDir root c) answer ≠ some [] := by
  obtain ⟨htext, -⟩ := loadSettings_motd configDir root c
  have hload : (load c configDir (some (.object root)) answer).2 =
      reloadMotd (loadSettings configDir root c) answer := rfl
  rw [hload]
  cases hobtained : obtained (loadSettings configDir root c) answer with
  | none =>
    rw [reloadMotd_of_none hobtained, keepMotd_text, if_pos htext]
    decide
  | some content =>
    by_cases hcontent : content = []
    · rw [reloadMotd_of_some hobtained, hcontent, installMotd_nil, htext]
      exact iff_of_false (fun h => h rfl) fun h => h rfl
    · rw [(reloadMotd_installed hobtained hcontent).1, ne_eq, ne_eq, Option.some_inj]

/-- After a load, text and number keep together along just the runs in which the load does not
obtain an empty message, and no reload the message that is there already. -/
theorem kept_together_iff (c : ConfigManager) (configDir : List UInt8) (root : Members)
    (answer : Answer) (answers : List Answer) :
    KeptTogether (load c configDir (some (.object root)) answer).2 answers ↔
      obtained (loadSettings configDir root c) answer ≠ some [] ∧
        reloads.AllSteps (fun d answer => obtained d answer ≠ some (d.m_confString .MOTD_TEXT))
          (load c configDir (some (.object root)) answer).2 answers := by
  rw [KeptTogether, load_text_ne_nil_iff]
  apply and_congr_right
  intro hobtained
  have htext := (load_text_ne_nil_iff c configDir root answer).mpr hobtained
  obtain ⟨d, hd⟩ := exists_run_of_total (M := reloads) (fun _ _ => ⟨_, rfl⟩)
    (load c configDir (some (.object root)) answer).2 answers
  apply allSteps_congr (I := fun d => d.m_confString .MOTD_TEXT ≠ []) _ _ htext hd
  · rintro s a _ hs ⟨⟩
    exact reloadMotd_text_ne_nil hs a
  · rintro s a _ hs -
    exact movesTogether_iff hs a

theorem unchanged_message_counted :
    ¬ ∀ (c : ConfigManager) (configDir : List UInt8) (root : Members) (answer : Answer)
      (answers : List Answer),
      KeptTogether (load c configDir (some (.object root)) answer).2 answers := by
  intro hall
  have hkept := hall freshConfig (ascii ".") channelDocument (messageAnswer (ascii "Hello"))
    [messageAnswer (ascii "Hello")]
  exact (movesTogether_iff hkept.1 _).mp hkept.2.1 rfl

end LoginServer.Configuration

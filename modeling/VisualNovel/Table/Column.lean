/-
  The columns with a meaning of their own: the command and its arguments in a script, and the
  four columns of a character sheet.
-/

namespace VisualNovel.Table

/-- A column the reader of scripts and character sheets knows. -/
inductive Column where
  | command
  | arg1
  | arg2
  | arg3
  | arg4
  | arg5
  | arg6
  | text
  | voice
  | voiceVersion
  | characterName
  | pattern
  | nameText
  | fileName
  deriving Repr, DecidableEq

namespace Column

/-- The header of a column. -/
def header : Column → String
  | command => "Command"
  | arg1 => "Arg1"
  | arg2 => "Arg2"
  | arg3 => "Arg3"
  | arg4 => "Arg4"
  | arg5 => "Arg5"
  | arg6 => "Arg6"
  | text => "Text"
  | voice => "Voice"
  | voiceVersion => "VoiceVersion"
  | characterName => "CharacterName"
  | pattern => "Pattern"
  | nameText => "NameText"
  | fileName => "FileName"

/-- All columns. -/
def all : List Column :=
  [command, arg1, arg2, arg3, arg4, arg5, arg6, text, voice, voiceVersion, characterName,
    pattern, nameText, fileName]

/-- The column with a header. -/
def ofHeader? (s : String) : Option Column := all.find? fun c => c.header == s

end Column

end VisualNovel.Table

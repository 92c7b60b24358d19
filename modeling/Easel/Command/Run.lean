import Easel.Command.Arguments

/-!
# Carrying out commands
-/

namespace Easel.Command

/-- A line that makes a shell complete the names of the commands. -/
def completionLine (shell : String) : String :=
  let names := " ".intercalate (Invocation.entries.map Invocation.Entry.name)
  match shell with
  | "bash" => "complete -W \"" ++ names ++ "\" easel\n"
  | "fish" => "complete -c easel -f -a \"" ++ names ++ "\"\n"
  | "zsh" => "compctl -k \"(" ++ names ++ ")\" easel\n"
  | "elvish" =>
    "set edit:completion:arg-completer[easel] = \x7b|@words| put " ++ names ++ " \x7d\n"
  | _ => "Register-ArgumentCompleter -Native -CommandName easel -ScriptBlock \x7b '" ++ names ++
      "' -split ' ' \x7d\n"

variable {m : Type → Type} [Monad m] [Host m]

/-- Carries out a command. -/
def Request.run (r : Request) : Task m Unit :=
  match r with
  | .render o => o.run
  | .check o => o.run
  | .inspect o => o.run
  | .natives start => (Host.print (Natives.registry.listing start) : m _)
  | .completions shell => (Host.print (completionLine shell) : m _)

end Easel.Command

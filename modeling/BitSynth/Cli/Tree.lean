import BitSynth.Cli.Command

namespace BitSynth.Cli

def toolName : String := "exprsynth"

def globalFlags : List Flag :=
  [.texts "config" "" "read a configuration file (repeatable)",
   .texts "set" "" "override a configuration key, as key=value (repeatable)",
   .bool "verbose" "v" "log every external command",
   .text "diag-format" "" "diagnostic output format (text|json)" "text"]

def expressionFlags : List Flag :=
  [.texts "width" "w" "signal widths as name=bits, comma separated (repeatable)",
   .int "out-width" "" "output width (inferred when 0)" 0,
   .text "name" "" "top-level module name" "blk"]

/-- `synth`: maps an expression, through the cache unless told not to. -/
def synthCommand : Command :=
  { name := "synth", use := "synth [flags] expression",
    short := "Map an expression with a synthesis backend and report its metrics",
    long := "Map an expression with a synthesis backend and report its metrics.\n\n" ++
      "Results are cached under <cache root>/$ACT_TECH/<backend> unless --no-cache\n" ++
      "is given. With --output the mapped netlist is translated and appended to\n" ++
      "that file.\n\n" ++
      "Unmapped integer literals are 64 bits wide, so a literal left-shift amount\n" ++
      "must be sized explicitly: write x << int(2, 2), not x << 2.",
    action := .synth, arity := .exactly 1,
    localFlags := expressionFlags ++
      [.text "backend" "b" "synthesis backend (abc|yosys|genus or an installed extension)" "abc",
       .text "output" "o" "append the translated netlist to this file" "",
       .text "target" "" "translation target (qdi|bd)" "qdi",
       .text "work-dir" "" "directory for temporary files" "",
       .text "cache-dir" "" "cache directory (overrides the configured cache root)" "",
       .bool "no-cache" "" "always synthesize, bypassing the cache",
       .bool "tie-cells" "" "drive constant outputs through tie cells"] }

def verilogCommand : Command :=
  { name := "verilog", use := "verilog [flags] expression",
    short := "Emit the Verilog module of an expression", action := .verilog, arity := .exactly 1,
    localFlags := expressionFlags ++ [.text "output" "o" "output file (stdout when omitted)" ""] }

def inspectCommand : Command :=
  { name := "inspect", use := "inspect [flags] expression",
    short := "Dump the parsed expression, its bindings and node widths", action := .inspect,
    arity := .exactly 1, localFlags := expressionFlags }

def cacheCommand : Command :=
  { name := "cache", use := "cache", short := "Inspect the expression cache",
    persistentFlags :=
      [.text "backend" "b" "backend whose cache to open" "abc",
       .text "cache-dir" "" "cache directory (overrides the configured cache root)" ""],
    commands :=
      [{ name := "list", use := "list", short := "List the cached expression blocks",
         action := .cacheList, arity := .none },
       { name := "verify", use := "verify", short := "Check the index against the artifacts on disk",
         action := .cacheVerify, arity := .none }] }

def serverCommand : Command :=
  { name := "abc-server", use := "abc-server",
    short := "Serve abc optimisation sessions over stdin and stdout", hidden := true,
    action := .serve, arity := .none,
    localFlags :=
      [.text "liberty" "" "cell library read into every session" "",
       .text "abc" "" "abc executable" "abc",
       .bool "constraints" "" "load each session's constraint file"] }

def helpCommand : Command :=
  { name := "help", use := "help [command]", short := "Help about any command",
    long := "Help provides help for any command in the application.\n" ++
      "Simply type " ++ toolName ++ " help [path to command] for full details.",
    action := .help }

def shellCommand (shell long : String) : Command :=
  { name := shell, use := shell, short := "Generate the autocompletion script for " ++ shell,
    long, action := .completion shell, arity := .none, flagsInUseLine := false,
    localFlags := [.bool "no-descriptions" "" "disable completion descriptions"] }

def completionCommand : Command :=
  let t := toolName
  { name := "completion", use := "completion",
    short := "Generate the autocompletion script for the specified shell",
    long := "Generate the autocompletion script for " ++ t ++ " for the specified shell.\n" ++
      "See each sub-command's help for details on how to use the generated script.\n",
    arity := .none,
    commands :=
      [shellCommand "bash" ("Generate the autocompletion script for the bash shell.\n\n" ++
        "This script depends on the 'bash-completion' package.\n" ++
        "If it is not installed already, you can install it via your OS's package manager.\n\n" ++
        "To load completions in your current shell session:\n\n" ++
        "\tsource <(" ++ t ++ " completion bash)\n\n" ++
        "To load completions for every new session, execute once:\n\n" ++
        "#### Linux:\n\n" ++
        "\t" ++ t ++ " completion bash > /etc/bash_completion.d/" ++ t ++ "\n\n" ++
        "#### macOS:\n\n" ++
        "\t" ++ t ++ " completion bash > $(brew --prefix)/etc/bash_completion.d/" ++ t ++ "\n\n" ++
        "You will need to start a new shell for this setup to take effect.\n"),
       shellCommand "fish" ("Generate the autocompletion script for the fish shell.\n\n" ++
        "To load completions in your current shell session:\n\n" ++
        "\t" ++ t ++ " completion fish | source\n\n" ++
        "To load completions for every new session, execute once:\n\n" ++
        "\t" ++ t ++ " completion fish > ~/.config/fish/completions/" ++ t ++ ".fish\n\n" ++
        "You will need to start a new shell for this setup to take effect.\n"),
       shellCommand "powershell" ("Generate the autocompletion script for powershell.\n\n" ++
        "To load completions in your current shell session:\n\n" ++
        "\t" ++ t ++ " completion powershell | Out-String | Invoke-Expression\n\n" ++
        "To load completions for every new session, add the output of the above command\n" ++
        "to your powershell profile.\n"),
       shellCommand "zsh" ("Generate the autocompletion script for the zsh shell.\n\n" ++
        "If shell completion is not already enabled in your environment you will need\n" ++
        "to enable it.  You can execute the following once:\n\n" ++
        "\techo \"autoload -U compinit; compinit\" >> ~/.zshrc\n\n" ++
        "To load completions in your current shell session:\n\n" ++
        "\tsource <(" ++ t ++ " completion zsh)\n\n" ++
        "To load completions for every new session, execute once:\n\n" ++
        "#### Linux:\n\n" ++
        "\t" ++ t ++ " completion zsh > \"$\x7bfpath[1]\x7d/_" ++ t ++ "\"\n\n" ++
        "#### macOS:\n\n" ++
        "\t" ++ t ++ " completion zsh > $(brew --prefix)/share/zsh/site-functions/_" ++ t ++ "\n\n" ++
        "You will need to start a new shell for this setup to take effect.\n")] }

def tool : Command :=
  { name := toolName, use := toolName,
    short := "Synthesize expression blocks into mapped gate-level netlists.",
    long := "Compile bit-vector expressions into Verilog, map them with a logic synthesis " ++
      "backend and cache the results.",
    persistentFlags := globalFlags,
    commands := [synthCommand, verilogCommand, inspectCommand, cacheCommand, serverCommand,
      helpCommand, completionCommand] }

end BitSynth.Cli

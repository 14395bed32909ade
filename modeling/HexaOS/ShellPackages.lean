import HexaOS.ShellForms

/-!
# The package manager

cmd_ayo of hexa.c with its table of packages. A package is installed when the form named
by a dot and its name exists. Installing makes forms in the next slots of form_table with
form_ensure_cap alone; removing shifts them out of the table and keeps their blocks.
-/

namespace HexaOS.Shell

open DevicePrograms PackedBytes Hexafs Kernel

/-- A form of a package. -/
structure PkgForm where
  /-- The name. -/
  name : String
  /-- The text. -/
  content : String

/-- struct pkg_entry. The length of `forms` is nforms. -/
structure PkgEntry where
  /-- The name. -/
  name : String
  /-- The forms. -/
  forms : List PkgForm

/-- pkg_db -/
def pkgDb : List PkgEntry := [
  ⟨"games", [
    ⟨"snake.txt", "Snake: eat food (@), avoid walls, grow! WASD to move."⟩,
    ⟨"ttt.txt", "Tic-Tac-Toe: two-player. Get three in a row!"⟩,
    ⟨"hangman.txt", "Hangman: guess the hidden word letter by letter."⟩,
    ⟨"memory.txt", "Memory: watch color sequence and repeat it!"⟩]⟩,
  ⟨"docs", [
    ⟨"readme.txt", "HEXA OS 5.1 - Paging, interrupts, scheduler, syscalls, user mode!"⟩,
    ⟨"commands.txt", "Type 'help' to list all available commands (70+)."⟩,
    ⟨"about.txt",
      "HEXA OS 5.1: Paging Edition - IDT, PIC, PIT, paging, kmalloc, scheduler, syscalls!"⟩]⟩,
  ⟨"fun", [
    ⟨"quotes.txt", "\"The only constant is change.\" - Heraclitus"⟩,
    ⟨"jokes.txt", "Q: Why did the OS crash? A: Out of funny business!"⟩,
    ⟨"easter.txt", "Try 'russian' for a risky game of chance!"⟩]⟩,
  ⟨"dev", [
    ⟨"api.txt", "API: print_string, put_char, get_char, get_line, clear_screen"⟩,
    ⟨"memory.txt", "Kernel: 0x10000 | VGA: 0xB8000 | Stack: 0x7C00"⟩,
    ⟨"pci.txt", "PCI: config via ports 0xCF8/0xCFC, BDF addressing."⟩]⟩,
  ⟨"cheatsheet", [
    ⟨"keys.txt", "PS/2 scancodes mapped to ASCII. Shift for uppercase."⟩,
    ⟨"ports.txt", "0x3F8=COM1, 0x60=Keyboard, 0x64=Kbd Status, 0xCF8/CFC=PCI"⟩,
    ⟨"cmos.txt", "CMOS regs: 0x00=sec, 0x02=min, 0x04=hr, 0x07=day, 0x08=mon, 0x09=yr"⟩,
    ⟨"ata.txt", "ATA PIO: I/O 0x1F0-0x1F7. LBA28 addressing. Primary channel."⟩]⟩,
  ⟨"tools", [
    ⟨"hexdump.txt", "View form content in hex with 'view <form>' for text."⟩,
    ⟨"calc.txt", "Built-in calc: calc 2 + 2, calc 10 / 3"⟩,
    ⟨"editor.txt", "Edit forms with 'edit <form>', finish with '.done'"⟩,
    ⟨"tips.txt", "Use 'diese <cmd>' to run as root. 'up-arrow' recalls last cmd."⟩]⟩,
  ⟨"net", [
    ⟨"ping.txt", "ping: simulated network ping. 'ping localhost'"⟩,
    ⟨"dns.txt", "DNS resolves hostnames to IPs (simulated)."⟩,
    ⟨"ip.txt", "IP addressing: 127.0.0.1 is localhost."⟩,
    ⟨"tcp.txt", "TCP: reliable transport. HEXA uses raw I/O."⟩,
    ⟨"curl.txt", "curl: simulated web requests (display only)."⟩]⟩,
  ⟨"math", [
    ⟨"pi.txt", "PI = 3.1415926535897932384626433832795"⟩,
    ⟨"e.txt", "E = 2.7182818284590452353602874713527"⟩,
    ⟨"fib.txt", "Fibonacci: 0,1,1,2,3,5,8,13,21,34,55,89,144..."⟩,
    ⟨"prime.txt", "Primes: 2,3,5,7,11,13,17,19,23,29,31,37,41,43,47..."⟩,
    ⟨"stats.txt", "mean, median, mode - basic stats. Use calc for math."⟩]⟩,
  ⟨"sysadmin", [
    ⟨"df.txt", "df: disk free. storage.img: 128KB total"⟩,
    ⟨"dmesg.txt", "dmesg: kernel ring buffer. Boot messages here."⟩,
    ⟨"uptime.txt", "uptime: system uptime in ticks"⟩,
    ⟨"iostat.txt", "iostat: ATA disk I/O stats (simulated)."⟩,
    ⟨"top.txt", "tasks: system tasks. Only shell task running."⟩]⟩,
  ⟨"security", [
    ⟨"passwd.txt", "passwd: change your password. New: hashed storage!"⟩,
    ⟨"perm.txt", "Permissions: hex mode. Use setmode + setowner."⟩,
    ⟨"root.txt", "Root has full access. Use 'diese <cmd>' for root."⟩,
    ⟨"audit.txt", "Log: all changes are persisted to disk image."⟩]⟩,
  ⟨"media", [
    ⟨"ascii.txt", "ASCII art: use 'logo' for HEXA banner."⟩,
    ⟨"colors.txt", "VGA colors: 0-15. Use 'color <n>' to change."⟩,
    ⟨"pics.txt", "ASCII pics: try 'cowsay' for cow, 'sl' for train."⟩,
    ⟨"anim.txt", "Animation: 'cmatrix' rain, 'sl' train, 'hack' bar."⟩]⟩,
  ⟨"productivity", [
    ⟨"calendar.txt", "Calendar: see date via 'date' command (RTC)."⟩,
    ⟨"reminder.txt", "No alarms yet. Use forms for reminders."⟩,
    ⟨"notes.txt", "Note taking: 'edit <form>' creates/modifies notes."⟩,
    ⟨"todo.txt", "Todo: 'mkform todo.txt' and 'edit todo.txt'."⟩]⟩,
  ⟨"science", [
    ⟨"elements.txt", "H,He,Li,Be,B,C,N,O,F,Ne - periodic table begins here"⟩,
    ⟨"speed.txt", "Speed of light: 299,792,458 m/s"⟩,
    ⟨"gravity.txt", "Gravitational constant G = 6.67430e-11"⟩,
    ⟨"planck.txt", "Planck constant h = 6.62607015e-34"⟩,
    ⟨"solar.txt", "Solar system: 8 planets orbiting Sol."⟩]⟩,
  ⟨"lang", [
    ⟨"hello_c.txt", "C: #include <stdio.h>\\nint main()\x7breturn 0;\x7d"⟩,
    ⟨"hello_py.txt", "Python: print('Hello, HEXA!')"⟩,
    ⟨"hello_asm.txt", "x86 ASM: mov eax, 1; int 0x80"⟩,
    ⟨"hello_js.txt", "JS: console.log('Hello from HEXA!');"⟩,
    ⟨"shell.txt", "Shell: echo 'Hello HEXA!'"⟩]⟩,
  ⟨"puzzle", [
    ⟨"sudoku.txt", "Sudoku: 9x9 grid. Solve with logic."⟩,
    ⟨"crossword.txt", "Crossword: word puzzle. Not implemented."⟩,
    ⟨"maze.txt", "Maze: find path from start to exit."⟩,
    ⟨"riddle.txt", "Riddle: What has keys but no locks? A keyboard!"⟩]⟩,
  ⟨"adventure", [
    ⟨"start.txt", "You stand in a dark room. Commands: look, go, take"⟩,
    ⟨"cave.txt", "The cave is damp. You see a glowing sword."⟩,
    ⟨"forest.txt", "A dense forest. Paths lead north, east, south."⟩,
    ⟨"dragon.txt", "A dragon sleeps on a pile of gold."⟩,
    ⟨"treasure.txt", "You found the treasure! 1000 gold coins."⟩]⟩,
  ⟨"retro", [
    ⟨"basic.txt", "BASIC: 10 PRINT 'HELLO'\\n20 GOTO 10"⟩,
    ⟨"fortran.txt", "FORTRAN: PROGRAM HELLO\\nPRINT*,'HELLO'\\nEND"⟩,
    ⟨"pascal.txt", "Pascal: begin writeln('Hello'); end."⟩,
    ⟨"c64.txt", "C64: 6510 CPU, 64KB RAM, SID sound."⟩,
    ⟨"dos.txt", "MS-DOS: dir, copy, del, edit, type."⟩]⟩,
  ⟨"algorithms", [
    ⟨"sorting.txt", "Sorting: bubble, quick, merge, heap - O(n log n) best"⟩,
    ⟨"search.txt", "Search: binary O(log n), linear O(n)."⟩,
    ⟨"graph.txt", "Graph: BFS, DFS, Dijkstra, A* pathfinding."⟩,
    ⟨"tree.txt", "Tree: binary search, AVL, red-black, trie."⟩,
    ⟨"dp.txt", "Dynamic Prog: Fibonacci, knapSack, LCS, LIS."⟩]⟩,
  ⟨"crypto", [
    ⟨"caesar.txt", "Caesar cipher: shift letters by N positions."⟩,
    ⟨"vigenere.txt", "Vigenere: polyalphabetic cipher with keyword."⟩,
    ⟨"xor.txt", "XOR: simple symmetric encryption."⟩,
    ⟨"hash.txt", "HEXA now uses hashed passwords! djb2 variant."⟩,
    ⟨"rot13.txt", "ROT13: rotate by 13, reverses itself."⟩]⟩,
  ⟨"music", [
    ⟨"notes.txt", "Notes: C D E F G A B (do re mi fa so la ti)"⟩,
    ⟨"chords.txt", "Chords: Cmaj, Dmin, Emin, Fmaj, Gmaj, Amin, Bdim"⟩,
    ⟨"scale.txt", "C major scale: C D E F G A B C"⟩,
    ⟨"beep.txt", "Use 'beep' command for terminal bell."⟩,
    ⟨"song.txt", "Twinkle Twinkle Little Star: C C G G A A G"⟩]⟩,
  ⟨"philosophy", [
    ⟨"plato.txt", "Plato: The Republic - justice in the individual and state."⟩,
    ⟨"nietzsche.txt", "Nietzsche: 'What does not kill me makes me stronger.'"⟩,
    ⟨"descartes.txt", "Descartes: 'I think, therefore I am.'"⟩,
    ⟨"confucius.txt",
      "Confucius: 'It does not matter how slowly you go as long as you do not stop.'"⟩,
    ⟨"zen.txt", "Zen: 'Before enlightenment, chop wood, carry water.'"⟩]⟩,
  ⟨"geography", [
    ⟨"capitals.txt", "Paris, London, Berlin, Rome, Madrid, Lisbon, Athens"⟩,
    ⟨"rivers.txt", "Nile (6650km), Amazon (6400km), Mississippi (3730km)"⟩,
    ⟨"mountains.txt", "Everest (8848m), K2 (8611m), Kangchenjunga (8586m)"⟩,
    ⟨"oceans.txt", "Pacific, Atlantic, Indian, Southern, Arctic"⟩,
    ⟨"flags.txt", "HEXA OS flags: ASCII art banners!"⟩]⟩]

/-- A text as a string of C. -/
def cString (text : String) : CString := literal text.toList

/-- The name of a form of a package. -/
def PkgForm.fileName (form : PkgForm) : CString := cString form.name

/-- The content of a form of a package. -/
def PkgForm.text (form : PkgForm) : CString := cString form.content

/-- The name of the form that marks a package as installed. -/
def PkgEntry.marker (pkg : PkgEntry) : CString := literal ('.' :: pkg.name.toList)

/-- The stores that make a form in the next slot. The result of form_ensure_cap is not
looked at, and the mode is what the slot holds. -/
def createForm (name content : CString) : KernelM Unit := do
  let kernel ← Code.memory
  let count := kernel.store.formCount
  modifyForm count fun form => { form with name := name }
  let _ ← formEnsureCap count (Int32.ofNat content.chars.length + 1)
  copyText count content.chars
  modifyForm count fun form => { form with
    size := content.chars.length, owner := UInt32.ofNat kernel.store.uCur }
  setFormCount (· + 1)

/-- Make a form of a package, when there is none with its name. -/
def installForm (form : PkgForm) : KernelM Unit := do
  let kernel ← Code.memory
  if (findForm kernel form.fileName).isSome then pure ()
  else createForm form.fileName form.text

/-- The loop of `ayo add`. -/
def installForms : List PkgForm → KernelM Unit
  | [] => pure ()
  | form :: rest => do
    installForm form
    installForms rest

/-- The entry of a package. -/
def findPackage (pkg : CString) : Option PkgEntry :=
  pkgDb.find? fun entry => cString entry.name == pkg

/-- What the subcommands for root print to other users. -/
def rootOnly (usage : String) : List UInt8 := said "Root only.\n" ++ said usage

/-- `ayo add` -/
def ayoAdd (save : KernelM Unit) (pkg : CString) : KernelM (List UInt8) := do
  let kernel ← Code.memory
  if pkg.chars = [] then pure (said "Usage: ayo add <pkg>\n")
  else if kernel.store.uCur ≠ 0 then pure (rootOnly "Use: diese ayo add <pkg>\n")
  else
    match findPackage pkg with
    | none => pure (said "Unknown package.\n")
    | some entry =>
      if maxForms ≤ kernel.store.formCount + entry.forms.length + 1 then pure (said "FS full.\n")
      else if (findForm kernel entry.marker).isSome then pure (said "Already installed.\n")
      else
        createForm entry.marker (cString "1")
        installForms entry.forms
        save
        pure (said "Installed: " ++ pkg.chars ++ said "\n")

/-- Take the first form with a name out of the table. Its block is not freed. -/
def uninstallForm (name : CString) : KernelM Unit := do
  let kernel ← Code.memory
  match findForm kernel name with
  | none => pure ()
  | some idx => removeForm idx

/-- The loop of `ayo remove`. -/
def uninstallForms : List CString → KernelM Unit
  | [] => pure ()
  | name :: rest => do
    uninstallForm name
    uninstallForms rest

/-- The names that `ayo remove` looks for, the marker at last. -/
def PkgEntry.installed (pkg : PkgEntry) : List CString :=
  pkg.forms.map PkgForm.fileName ++ [pkg.marker]

/-- `ayo remove` -/
def ayoRemove (save : KernelM Unit) (pkg : CString) : KernelM (List UInt8) := do
  let kernel ← Code.memory
  if pkg.chars = [] then pure (said "Usage: ayo remove <pkg>\n")
  else if kernel.store.uCur ≠ 0 then pure (rootOnly "Use: diese ayo remove <pkg>\n")
  else
    match findPackage pkg with
    | none => pure (said "Unknown package.\n")
    | some entry =>
      if (findForm kernel entry.marker).isNone then pure (said "Not installed.\n")
      else
        uninstallForms entry.installed
        save
        pure (said "Removed: " ++ pkg.chars ++ said "\n")

/-- The stores of `ayo update` in a form that exists. -/
def rewriteForm (idx : ℕ) (content : CString) : KernelM Unit := do
  let _ ← formEnsureCap idx (Int32.ofNat content.chars.length + 1)
  writeText idx content

/-- Refresh one form of an installed package. -/
def refreshForm (form : PkgForm) : KernelM Unit := do
  let kernel ← Code.memory
  match findForm kernel form.fileName with
  | some idx => rewriteForm idx form.text
  | none =>
    if kernel.store.formCount < maxForms then createForm form.fileName form.text else pure ()

/-- The inner loop of `ayo update`. -/
def refreshForms : List PkgForm → KernelM Unit
  | [] => pure ()
  | form :: rest => do
    refreshForm form
    refreshForms rest

/-- Refresh a package, when it is installed. -/
def refreshPackage (pkg : PkgEntry) : KernelM ℕ := do
  let kernel ← Code.memory
  if (findForm kernel pkg.marker).isNone then pure 0
  else
    refreshForms pkg.forms
    pure 1

/-- The outer loop of `ayo update`: how many packages are installed. -/
def refreshPackages : List PkgEntry → KernelM ℕ
  | [] => pure 0
  | pkg :: rest => do
    let one ← refreshPackage pkg
    let others ← refreshPackages rest
    pure (one + others)

/-- `ayo update` -/
def ayoUpdate (save : KernelM Unit) : KernelM (List UInt8) := do
  let kernel ← Code.memory
  if kernel.store.uCur ≠ 0 then pure (rootOnly "Use: diese ayo update\n")
  else
    let n ← refreshPackages pkgDb
    save
    pure (itoa (Int32.ofNat n) 10 ++ said " packages updated.\n")

/-- The line of `ayo list` about a package. -/
def listedPackage (kernel : KernelMemory) (pkg : PkgEntry) : List UInt8 :=
  said "  " ++ said pkg.name ++
    said (if (findForm kernel pkg.marker).isSome then " [I]" else " [ ]") ++ said "  " ++
      itoa (Int32.ofNat pkg.forms.length) 10 ++ said " forms\n"

/-- What `ayo help` prints. -/
def ayoHelp : List UInt8 :=
  said "ayo - HEXA OS Package Manager\n" ++
  said "Usage:\n" ++
  said "  ayo list           show packages [I]=installed\n" ++
  said "  ayo add <pkg>     install package (root only)\n" ++
  said "  ayo remove <pkg>  uninstall package (root only)\n" ++
  said "  ayo update        refresh all installed (root only)\n" ++
  said "Packages: " ++ said (", ".intercalate (pkgDb.map PkgEntry.name)) ++ said "\n"

/-- cmd_ayo. `save` is save_data. -/
def ayoCommand (save : KernelM Unit) (args : CString) : KernelM (List UInt8) := do
  let sub := firstWord 15 args
  let pkg := restWords 15 31 args
  let kernel ← Code.memory
  if sub = literal ['l', 'i', 's', 't'] then
    pure (said "Packages:\n" ++ pkgDb.flatMap (listedPackage kernel))
  else if sub = literal ['h', 'e', 'l', 'p'] then pure ayoHelp
  else if sub = literal ['a', 'd', 'd'] then ayoAdd save pkg
  else if sub = literal ['r', 'e', 'm', 'o', 'v', 'e'] then ayoRemove save pkg
  else if sub = literal ['u', 'p', 'd', 'a', 't', 'e'] then ayoUpdate save
  else pure (said "Usage: ayo <list|help|add|remove|update> [package]\n")

end HexaOS.Shell

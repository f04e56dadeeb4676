/-!
# Help

The text that the command line answers a request for help with, on a terminal of eighty columns.
-/

namespace Chip8.CommandLine

def helpLines : List String :=
  ["usage: main.py [-h] --rom ROM [--seconds SECONDS] [--fps FPS]",
    "               [--steps-per-call STEPS_PER_CALL] [--seed SEED] [--keys KEYS]",
    "               [--quiet] [--verbose]",
    "",
    "chip8_vm: CHIP-8 Virtual Machine Interpreter",
    "",
    "options:",
    "  -h, --help            show this help message and exit",
    "  --rom ROM, -r ROM     Path to CHIP-8 ROM image",
    "  --seconds SECONDS, -t SECONDS",
    "                        Emulated run time in seconds (60 cycles per second).",
    "                        Default: 1.0",
    "  --fps FPS             Host frame rate: run_cycles() calls per second.",
    "                        Default: 60",
    "  --steps-per-call STEPS_PER_CALL, -s STEPS_PER_CALL",
    "                        Maximum cycles per run_cycles() call. Default: 1",
    "  --seed SEED           Seed for the random number instruction",
    "  --keys KEYS, -k KEYS  Comma-separated hex keys held down for the whole run",
    "  --quiet, -q           Minimal output (final screen only)",
    "  --verbose, -v         Enable debug logging",
    "",
    "Examples:",
    "    # Run a ROM for one second of emulated time",
    "    python main.py --rom roms/IBM_Logo.ch8",
    "",
    "    # Ten seconds, host at 30fps catching up two cycles per call, keys 1 and 4 held",
    "    python main.py --rom roms/pong.ch8 --seconds 10 --fps 30 --steps-per-call 2 --keys 1,4",
    "",
    "    # Deterministic random numbers and debug logging",
    "    python main.py --rom roms/random.ch8 --seed 42 --verbose",
    "        "]

end Chip8.CommandLine
